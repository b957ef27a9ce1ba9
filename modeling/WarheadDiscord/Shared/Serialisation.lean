import WarheadDiscord.Deps.Utf8cpp
import WarheadDiscord.Shared.ByteBuffer

/-!
# Typed values in a `ByteBuffer`

`operator<<` and `operator>>` for the integers, `bool` and strings.  A string is
written with a NUL behind it and without its length, so reading one goes on to the
next NUL.

* `extract_of_bytes`: reading at the bytes of a value gives this value, and the read
  position goes behind them.
* `extractAll_insertAll`: a list of values that is written can be read back.
-/

namespace WarheadDiscord

open Lib

namespace ByteBuffer

/-! ### `operator<<` -/

def writeUInt8 (b : ByteBuffer) (value : UInt8) : Except Fault ByteBuffer :=
  b.append (toLE 1 value.toNat)

def writeUInt16 (b : ByteBuffer) (value : UInt16) : Except Fault ByteBuffer :=
  b.append (toLE 2 value.toNat)

def writeUInt64 (b : ByteBuffer) (value : UInt64) : Except Fault ByteBuffer :=
  b.append (toLE 8 value.toNat)

def writeBool (b : ByteBuffer) (value : Bool) : Except Fault ByteBuffer :=
  b.writeUInt8 (if value then 1 else 0)

/-- `operator<<(int8)`, in two's complement. -/
def writeInt8 (b : ByteBuffer) (value : Int8) : Except Fault ByteBuffer :=
  b.append (toLE 1 value.toUInt8.toNat)

def writeInt16 (b : ByteBuffer) (value : Int16) : Except Fault ByteBuffer :=
  b.append (toLE 2 value.toUInt16.toNat)

def writeInt32 (b : ByteBuffer) (value : Int32) : Except Fault ByteBuffer :=
  b.append (toLE 4 value.toUInt32.toNat)

/-! ### `operator>>`

A reader of integers that throws has not moved the read position.  `ReadCString` has: it
throws at the end of the string, and so returns the buffer in that case too. -/

/-- `read<T>()` for a type of `n` bytes, of which `ofNat` makes a value. -/
def readAs {α : Type} (n : Nat) (ofNat : Nat → α) (b : ByteBuffer) :
    Except Fault (α × ByteBuffer) :=
  match b.readBytes n with
  | .ok (bs, b') => .ok (ofNat (ofLE bs), b')
  | .error e => .error e

/-- `operator>>(bool&)`: `read<char>() > 0`, for a `char` that is signed. -/
def readBool : ByteBuffer → Except Fault (Bool × ByteBuffer) :=
  readAs 1 fun n => decide (0 < (UInt8.ofNat n).toInt8)

def readUInt16 : ByteBuffer → Except Fault (UInt16 × ByteBuffer) := readAs 2 UInt16.ofNat

def readUInt32 : ByteBuffer → Except Fault (UInt32 × ByteBuffer) := readAs 4 UInt32.ofNat

def readUInt64 : ByteBuffer → Except Fault (UInt64 × ByteBuffer) := readAs 8 UInt64.ofNat

def readInt8 : ByteBuffer → Except Fault (Int8 × ByteBuffer) :=
  readAs 1 fun n => (UInt8.ofNat n).toInt8

def readInt16 : ByteBuffer → Except Fault (Int16 × ByteBuffer) :=
  readAs 2 fun n => (UInt16.ofNat n).toInt16

def readInt32 : ByteBuffer → Except Fault (Int32 × ByteBuffer) :=
  readAs 4 fun n => (UInt32.ofNat n).toInt32

/-- The loop of `ReadCString`, with one unit of fuel for every byte that is left. -/
def readCStringLoop : Nat → List UInt8 → ByteBuffer → Except Fault (List UInt8) × ByteBuffer
  | 0, value, b => (if b.rpos < b.size then .error .outOfFuel else .ok value, b)
  | fuel + 1, value, b =>
    if b.rpos < b.size then
      match b.readUInt8 with
      | .ok (c, b') => if c = 0 then (.ok value, b') else readCStringLoop fuel (value ++ [c]) b'
      | .error e => (.error e, b)
    else (.ok value, b)

def readCString (requireValidUtf8 : Bool) (b : ByteBuffer) :
    Except Fault (List UInt8) × ByteBuffer :=
  match readCStringLoop (b.size - b.rpos) [] b with
  | (.ok value, b') =>
    if requireValidUtf8 && !Utf8.isValid value then
      (.error (.byteBufferInvalidValue "string" value), b')
    else (.ok value, b')
  | (.error e, b') => (.error e, b')

end ByteBuffer

/-! ### Values of all these types -/

inductive ValueType where
  | bool
  | int8
  | int16
  | int32
  | int64
  | uint8
  | uint16
  | uint32
  | uint64
  | string
  deriving DecidableEq, Repr

inductive Value where
  | bool (v : Bool)
  | int8 (v : Int8)
  | int16 (v : Int16)
  | int32 (v : Int32)
  | int64 (v : Int64)
  | uint8 (v : UInt8)
  | uint16 (v : UInt16)
  | uint32 (v : UInt32)
  | uint64 (v : UInt64)
  | string (v : List UInt8)
  deriving DecidableEq

namespace Value

def type : Value → ValueType
  | bool _ => .bool
  | int8 _ => .int8
  | int16 _ => .int16
  | int32 _ => .int32
  | int64 _ => .int64
  | uint8 _ => .uint8
  | uint16 _ => .uint16
  | uint32 _ => .uint32
  | uint64 _ => .uint64
  | string _ => .string

/-- The bytes that `operator<<` appends. -/
def bytes : Value → List UInt8
  | bool v => toLE 1 (if v then 1 else 0 : UInt8).toNat
  | int8 v => toLE 1 v.toUInt8.toNat
  | int16 v => toLE 2 v.toUInt16.toNat
  | int32 v => toLE 4 v.toUInt32.toNat
  | int64 v => toLE 8 v.toUInt64.toNat
  | uint8 v => toLE 1 v.toNat
  | uint16 v => toLE 2 v.toNat
  | uint32 v => toLE 4 v.toNat
  | uint64 v => toLE 8 v.toNat
  | string v => v ++ [0]

/-- How many of them the last `append` brings. -/
def last : Value → Nat
  | string _ => 1
  | v => v.bytes.length

/-- A string that can be read back: valid UTF-8, without a NUL byte. -/
def Readable : Value → Prop
  | string v => Utf8.ValidUtf8 v ∧ (0 : UInt8) ∉ v
  | _ => True

theorem bytes_ne_nil (v : Value) : v.bytes ≠ [] := by
  cases v with
  | string v => exact List.append_ne_nil_of_right_ne_nil v (List.cons_ne_nil 0 [])
  | _ => exact List.cons_ne_nil _ _

end Value

namespace ByteBuffer

/-- `operator<<`. -/
def insert (value : Value) (b : ByteBuffer) : Except Fault ByteBuffer :=
  match value with
  | .bool v => b.writeBool v
  | .int8 v => b.writeInt8 v
  | .int16 v => b.writeInt16 v
  | .int32 v => b.writeInt32 v
  | .int64 v => b.writeInt64 v
  | .uint8 v => b.writeUInt8 v
  | .uint16 v => b.writeUInt16 v
  | .uint32 v => b.writeUInt32 v
  | .uint64 v => b.writeUInt64 v
  | .string v => b.writeString v

/-- The result of a reader of integers, with the buffer also where it throws. -/
def asValue {α : Type} (b : ByteBuffer) (f : α → Value) :
    Except Fault (α × ByteBuffer) → Except Fault Value × ByteBuffer
  | .ok (v, b') => (.ok (f v), b')
  | .error e => (.error e, b)

/-- `operator>>` for a value of the type. -/
def extract (type : ValueType) (b : ByteBuffer) : Except Fault Value × ByteBuffer :=
  match type with
  | .bool => b.asValue .bool b.readBool
  | .int8 => b.asValue .int8 b.readInt8
  | .int16 => b.asValue .int16 b.readInt16
  | .int32 => b.asValue .int32 b.readInt32
  | .int64 => b.asValue .int64 b.readInt64
  | .uint8 => b.asValue .uint8 b.readUInt8
  | .uint16 => b.asValue .uint16 b.readUInt16
  | .uint32 => b.asValue .uint32 b.readUInt32
  | .uint64 => b.asValue .uint64 b.readUInt64
  | .string =>
    match b.readCString true with
    | (.ok v, b') => (.ok (.string v), b')
    | (.error e, b') => (.error e, b')

/-- A chain of `operator<<`. -/
def insertAll : List Value → ByteBuffer → Except Fault ByteBuffer
  | [], b => .ok b
  | v :: vs, b => do insertAll vs (← b.insert v)

/-- A chain of `operator>>`, up to the first that throws. -/
def extractAll : List ValueType → ByteBuffer → Except Fault (List Value) × ByteBuffer
  | [], b => (.ok [], b)
  | t :: ts, b =>
    match b.extract t with
    | (.ok v, b') =>
      match extractAll ts b' with
      | (.ok vs, b'') => (.ok (v :: vs), b'')
      | (.error e, b'') => (.error e, b'')
    | (.error e, b') => (.error e, b')

/-! ### Writing -/

variable {b b' : ByteBuffer} {v : Value} {vs : List Value} {bs rest : List UInt8}

theorem appends_insert (v : Value) : Appends (insert v) v.bytes v.last := by
  have hbytes := appends_append v.bytes v.bytes_ne_nil
  cases v with
  | string v => exact appends_writeString v
  | _ => exact hbytes

theorem AtEnd.extend_nil (h : b.AtEnd) : b.extend [] = b := by
  rw [extend, List.append_nil, ← (h : b.wpos = b.storage.length)]

/-- **A chain of `operator<<` appends the bytes of the values.** -/
theorem insertAll_eq : ∀ (vs : List Value) (b : ByteBuffer), b.AtEnd →
    b.size + (vs.flatMap Value.bytes).length < 10000000 →
    insertAll vs b = .ok (b.extend (vs.flatMap Value.bytes)) := by
  intro vs
  induction vs with
  | nil =>
    intro b h _
    rw [insertAll, List.flatMap_nil, h.extend_nil]
  | cons v vs ih =>
    intro b h hn
    rw [List.flatMap_cons, List.length_append] at hn
    have hv : b.insert v = .ok (b.extend v.bytes) := (appends_insert v).ok b h (by omega)
    have hrest := ih (b.extend v.bytes) (extend_atEnd b v.bytes) (by rw [extend_size]; omega)
    rw [extend_extend] at hrest
    rw [insertAll, hv, List.flatMap_cons]
    exact hrest

/-! ### Reading -/

/-- The buffer with its read position `n` bytes further. -/
def skip (b : ByteBuffer) (n : Nat) : ByteBuffer := { b with rpos := b.rpos + n }

theorem skip_skip (b : ByteBuffer) (m n : Nat) : (b.skip m).skip n = b.skip (m + n) := by
  rw [skip, skip, skip, Nat.add_assoc]

theorem drop_skip (h : b.storage.drop b.rpos = bs ++ rest) :
    (b.skip bs.length).storage.drop (b.skip bs.length).rpos = rest := by
  rw [skip, ← List.drop_drop, h, List.drop_left]

/-- Where the bytes `bs` are next, the reader gives `r` and goes behind them. -/
def Reads {α : Type} (reader : ByteBuffer → Except Fault α × ByteBuffer) (r : α)
    (bs : List UInt8) : Prop :=
  ∀ (b : ByteBuffer) (rest : List UInt8), b.storage.drop b.rpos = bs ++ rest →
    reader b = (.ok r, b.skip bs.length)

theorem rpos_lt_of_drop (h : b.storage.drop b.rpos = bs ++ rest) (hbs : 0 < bs.length) :
    b.rpos + bs.length ≤ b.size := by
  have hl := congrArg List.length h
  rw [List.length_drop, List.length_append] at hl
  rw [size]
  omega

theorem readAs_eq {α : Type} (ofNat : Nat → α) {w n : Nat} (hw : 0 < w) (hn : n < 256 ^ w)
    (h : b.storage.drop b.rpos = toLE w n ++ rest) :
    b.readAs w ofNat = .ok (ofNat n, b.skip w) := by
  have hl := toLE_length w n
  have hle := rpos_lt_of_drop h (by omega)
  rw [hl] at hle
  rw [readAs, readBytes_of_le hle]
  dsimp only
  rw [h, List.take_left' hl, ofLE_toLE hn]
  rfl

theorem readUInt8_eq {c : UInt8} (h : b.storage.drop b.rpos = c :: rest) :
    b.readUInt8 = .ok (c, b.skip 1) := by
  have hc : b.storage.drop b.rpos = toLE 1 c.toNat ++ rest := by
    rw [toLE, toLE, UInt8.ofNat_toNat]
    exact h
  have hr := readAs_eq UInt8.ofNat Nat.one_pos c.toNat_lt hc
  rw [UInt8.ofNat_toNat] at hr
  exact hr

theorem readCStringLoop_eq : ∀ (v pre : List UInt8) (b : ByteBuffer) (fuel : Nat),
    (0 : UInt8) ∉ v → b.storage.drop b.rpos = v ++ 0 :: rest → v.length < fuel →
    readCStringLoop fuel pre b = (.ok (pre ++ v), b.skip (v.length + 1)) := by
  intro v
  induction v with
  | nil =>
    intro pre b fuel _ h hf
    obtain ⟨fuel, rfl⟩ := Nat.exists_eq_succ_of_ne_zero (show fuel ≠ 0 by omega)
    have h : b.storage.drop b.rpos = [0] ++ rest := h
    have hlt : b.rpos < b.size := rpos_lt_of_drop h Nat.one_pos
    rw [readCStringLoop, if_pos hlt, readUInt8_eq h]
    dsimp only
    rw [if_pos rfl, List.append_nil]
    rfl
  | cons c v ih =>
    intro pre b fuel hv h hf
    rw [List.length_cons] at hf
    obtain ⟨fuel, rfl⟩ := Nat.exists_eq_succ_of_ne_zero (show fuel ≠ 0 by omega)
    obtain ⟨hc, hv⟩ := not_or.mp (mt List.mem_cons.mpr hv)
    have h : b.storage.drop b.rpos = [c] ++ (v ++ 0 :: rest) := h
    have hlt : b.rpos < b.size := rpos_lt_of_drop h Nat.one_pos
    rw [readCStringLoop, if_pos hlt, readUInt8_eq h]
    dsimp only
    rw [if_neg (Ne.symm hc), ih (pre ++ [c]) (b.skip 1) fuel hv (drop_skip h) (by omega),
      List.append_assoc, skip_skip, List.length_cons, Nat.add_comm 1]
    rfl

/-- **Reading at the bytes of a value gives the value.** -/
theorem extract_of_bytes (v : Value) (hv : v.Readable) : Reads (extract v.type) v v.bytes := by
  intro b rest h
  cases v with
  | string v =>
    obtain ⟨hvalid, hnul⟩ := hv
    have hle := rpos_lt_of_drop h (by rw [Value.bytes]; simp)
    rw [Value.bytes, List.append_assoc] at h
    have hf : v.length < b.size - b.rpos := by
      rw [Value.bytes, List.length_append, List.length_singleton] at hle
      omega
    rw [Value.type, extract, readCString, readCStringLoop_eq v [] b _ hnul h hf]
    dsimp only
    rw [List.nil_append, (Utf8.isValid_iff v).mpr hvalid, Value.bytes, List.length_append]
    rfl
  | bool v =>
    have hr : b.readBool = .ok (v, b.skip 1) := by
      rw [readBool, readAs_eq _ (by decide) (UInt8.toNat_lt _) h]
      cases v <;> rfl
    rw [Value.type, extract, hr]
    rfl
  | int8 v =>
    rw [Value.type, extract, readInt8, readAs_eq _ (by decide) v.toUInt8.toNat_lt h,
      UInt8.ofNat_toNat]
    rfl
  | int16 v =>
    rw [Value.type, extract, readInt16, readAs_eq _ (by decide) v.toUInt16.toNat_lt h,
      UInt16.ofNat_toNat]
    rfl
  | int32 v =>
    rw [Value.type, extract, readInt32, readAs_eq _ (by decide) v.toUInt32.toNat_lt h,
      UInt32.ofNat_toNat]
    rfl
  | int64 v =>
    have hr : b.readInt64 = .ok ((UInt64.ofNat v.toUInt64.toNat).toInt64, b.skip 8) :=
      readAs_eq (fun n => (UInt64.ofNat n).toInt64) (by decide) v.toUInt64.toNat_lt h
    rw [Value.type, extract, hr, UInt64.ofNat_toNat]
    rfl
  | uint8 v =>
    have h : b.storage.drop b.rpos = [v] ++ rest := by
      rw [Value.bytes, toLE, toLE, UInt8.ofNat_toNat] at h
      exact h
    rw [Value.type, extract, readUInt8_eq h]
    rfl
  | uint16 v =>
    rw [Value.type, extract, readUInt16, readAs_eq _ (by decide) v.toNat_lt h, UInt16.ofNat_toNat]
    rfl
  | uint32 v =>
    rw [Value.type, extract, readUInt32, readAs_eq _ (by decide) v.toNat_lt h, UInt32.ofNat_toNat]
    rfl
  | uint64 v =>
    rw [Value.type, extract, readUInt64, readAs_eq _ (by decide) v.toNat_lt h, UInt64.ofNat_toNat]
    rfl

theorem Reads.nil : Reads (extractAll []) [] [] := by
  intro b rest _
  rfl

theorem Reads.cons {t : ValueType} {ts : List ValueType} {v : Value} {vs : List Value}
    {xs ys : List UInt8} (hv : Reads (extract t) v xs) (hvs : Reads (extractAll ts) vs ys) :
    Reads (extractAll (t :: ts)) (v :: vs) (xs ++ ys) := by
  intro b rest h
  rw [List.append_assoc] at h
  rw [extractAll, hv b _ h]
  dsimp only
  rw [hvs _ rest (drop_skip h), skip_skip, List.length_append]

theorem reads_extractAll (vs : List Value) (h : ∀ v ∈ vs, v.Readable) :
    Reads (extractAll (vs.map Value.type)) vs (vs.flatMap Value.bytes) := by
  induction vs with
  | nil => exact Reads.nil
  | cons v vs ih =>
    rw [List.map_cons, List.flatMap_cons]
    exact (extract_of_bytes v (h v (by simp))).cons (ih fun w hw => h w (by simp [hw]))

/-! ### Round trip -/

/-- A buffer that holds the bytes of the values and is at its start gives the values. -/
theorem extractAll_of_storage (vs : List Value) (h : ∀ v ∈ vs, v.Readable) (b : ByteBuffer)
    (hpos : b.rpos = 0) (hb : b.storage = vs.flatMap Value.bytes) :
    ∃ b', extractAll (vs.map Value.type) b = (.ok vs, b') ∧ b'.rpos = b'.size := by
  have hr := reads_extractAll vs h b [] (by rw [hpos, List.drop_zero, List.append_nil, hb])
  refine ⟨_, hr, ?_⟩
  rw [skip, hpos, size, hb, Nat.zero_add]

/-- **Typed values can be read back.**  Values that are written into a fresh buffer, below the
limit of `append`, are the values that are read in the same types, from this buffer and from
one that was made of a `MessageBuffer` with its bytes; nothing throws, and the read position
ends at the size. -/
theorem extractAll_insertAll (vs : List Value) (h : ∀ v ∈ vs, v.Readable)
    (hn : (vs.flatMap Value.bytes).length < 10000000) :
    ∃ b, insertAll vs new = .ok b ∧
      (∃ b', extractAll (vs.map Value.type) b = (.ok vs, b') ∧ b'.rpos = b'.size) ∧
      ∀ m : MessageBuffer, m.storage = b.storage →
        ∃ b', extractAll (vs.map Value.type) (ofMessageBuffer m).1 = (.ok vs, b') ∧
          b'.rpos = b'.size := by
  have hsize : new.size + (vs.flatMap Value.bytes).length < 10000000 := by
    rw [show new.size = 0 from rfl]
    omega
  refine ⟨_, insertAll_eq vs new new_atEnd hsize, extractAll_of_storage vs h _ rfl rfl, ?_⟩
  intro m hm
  exact extractAll_of_storage vs h _ rfl hm

/-- A negative number, a string of one character of three bytes, and a number behind it. -/
theorem extractAll_insertAll_euro : ∃ b, insertAll
      [.int16 (-2), .string [0xe2, 0x82, 0xac], .uint32 7] new = .ok b ∧
    (∃ b', extractAll [.int16, .string, .uint32] b =
      (.ok [.int16 (-2), .string [0xe2, 0x82, 0xac], .uint32 7], b') ∧ b'.rpos = b'.size) := by
  have hs : ∀ v ∈ [Value.int16 (-2), .string [0xe2, 0x82, 0xac], .uint32 7], v.Readable := by
    intro v hv
    simp only [List.mem_cons, List.not_mem_nil, or_false] at hv
    rcases hv with rfl | rfl | rfl
    · trivial
    · exact ⟨(Utf8.isValid_iff _).mp (by decide), by decide⟩
    · trivial
  obtain ⟨b, hb, hr, -⟩ := extractAll_insertAll _ hs (by decide)
  exact ⟨b, hb, hr⟩

end ByteBuffer

end WarheadDiscord
