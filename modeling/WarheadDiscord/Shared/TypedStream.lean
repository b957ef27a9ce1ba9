import WarheadDiscord.Shared.PackGUID

/-!
# A `ByteBuffer` as a stream of values

Writing and reading need not take turns as in `Shared/Serialisation.lean`.  Here a buffer is a
list of values, of which some have been read: `TypedStream`, with its own operations, is what a
user of `ByteBuffer` has in mind.  Where a value starts in bytes matters only when the read
position is set.

* `Shows`: the bytes and the positions of a buffer are those of the stream.
* `shows_step`: **an operation of the stream is the operation of the buffer.**
* `buffer_refines`: so is every sequence of them, below the limit of `append`.
-/

namespace WarheadDiscord

open Lib

/-- `std::isfinite`, on the bits of a `float`: its exponent is not the greatest. -/
def isFiniteFloat (bits : UInt32) : Bool := (bits >>> 23) &&& 0xFF != 0xFF

/-- The same of a `double`. -/
def isFiniteDouble (bits : UInt64) : Bool := (bits >>> 52) &&& 0x7FF != 0x7FF

/-- What is written as one piece.  A floating point number is given by its bits, and a guid is
written without its zero bytes. -/
inductive Item where
  | value (value : Value)
  | float (bits : UInt32)
  | double (bits : UInt64)
  /-- A `std::array` of bytes. -/
  | array (bytes : List UInt8)
  | packGUID (guid : UInt64)
  deriving DecidableEq

inductive ItemType where
  | value (type : ValueType)
  | float
  | double
  | array (size : Nat)
  | packGUID
  deriving DecidableEq, Repr

namespace Item

def type : Item → ItemType
  | value v => .value v.type
  | float _ => .float
  | double _ => .double
  | array bytes => .array bytes.length
  | packGUID _ => .packGUID

def bytes : Item → List UInt8
  | value v => v.bytes
  | float bits => toLE 4 bits.toNat
  | double bits => toLE 8 bits.toNat
  | array bytes => bytes
  | packGUID guid => ByteBuffer.packedGUID guid

/-- A string has valid UTF-8 and no NUL, a number is finite, and an array is not empty. -/
def Readable : Item → Prop
  | value v => v.Readable
  | float bits => isFiniteFloat bits
  | double bits => isFiniteDouble bits
  | array bytes => bytes ≠ []
  | packGUID _ => True

end Item

/-! ### The stream -/

/-- The values that were written, and how many of them were read. -/
structure TypedStream where
  written : List Item
  read : Nat
  deriving DecidableEq

namespace TypedStream

/-- The operations, of the stream and of the buffer. -/
inductive Op where
  /-- `operator<<`, `append` of an array and `appendPackGUID` -/
  | insert (item : Item)
  /-- `operator>>` and `readPackGUID` -/
  | extract (type : ItemType)
  /-- `append(ByteBuffer const&)`, of a buffer into which the items were written. -/
  | append (items : List Item)
  /-- `rpos(pos)` -/
  | seek (pos : Nat)
  /-- `rfinish()` -/
  | finish
  /-- `clear()` -/
  | clear
  deriving DecidableEq

def Op.Readable : Op → Prop
  | insert item => item.Readable
  | append items => ∀ item ∈ items, item.Readable
  | _ => True

/-- What a stream is not made for. -/
inductive Misuse where
  /-- The limit of `append`. -/
  | full
  /-- There is no next value, or one of another type. -/
  | notNext (type : ItemType)
  /-- No value starts there. -/
  | noValue (pos : Nat)
  deriving DecidableEq, Repr

/-- The limit of `append`. -/
def limit : Nat := 10000000

/-- Where the value of this number starts, or the next one will. -/
def start (s : TypedStream) (n : Nat) : Nat := ((s.written.take n).flatMap Item.bytes).length

/-- More values behind those that were written. -/
def write (s : TypedStream) (items : List Item) : Except Misuse TypedStream :=
  if ((s.written ++ items).flatMap Item.bytes).length < limit then
    .ok { s with written := s.written ++ items }
  else .error .full

/-- An operation, and the values that were read so far. -/
def step (s : TypedStream × List Item) : Op → Except Misuse (TypedStream × List Item)
  | .insert item => do return (← s.1.write [item], s.2)
  | .append items => do return (← s.1.write items, s.2)
  | .extract type =>
    match s.1.written[s.1.read]? with
    | some item =>
      if item.type = type then .ok ({ s.1 with read := s.1.read + 1 }, s.2 ++ [item])
      else .error (.notNext type)
    | none => .error (.notNext type)
  | .seek pos =>
    match (List.range (s.1.written.length + 1)).find? fun n => s.1.start n = pos with
    | some n => .ok ({ s.1 with read := n }, s.2)
    | none => .error (.noValue pos)
  | .finish => .ok ({ s.1 with read := s.1.written.length }, s.2)
  | .clear => .ok (⟨[], 0⟩, s.2)

end TypedStream

/-! ### The buffer -/

namespace ByteBuffer

open TypedStream (Op limit)

/-- `operator<<(float)`. -/
def writeFloat (b : ByteBuffer) (bits : UInt32) : Except Fault ByteBuffer :=
  b.append (toLE 4 bits.toNat)

/-- `operator<<(double)`. -/
def writeDouble (b : ByteBuffer) (bits : UInt64) : Except Fault ByteBuffer :=
  b.append (toLE 8 bits.toNat)

/-- `operator>>(float&)` and `operator>>(double&)`: a number that is not finite is read, and then
refused. -/
def readFinite {α : Type} (type : String) (isFinite : α → Bool)
    (r : Except Fault (α × ByteBuffer)) (b : ByteBuffer) : Except Fault α × ByteBuffer :=
  match r with
  | .ok (bits, b') =>
    if isFinite bits then (.ok bits, b')
    -- `"infinity"`
    else (.error (.byteBufferInvalidValue type [105, 110, 102, 105, 110, 105, 116, 121]), b')
  | .error e => (.error e, b)

def readFloat (b : ByteBuffer) : Except Fault UInt32 × ByteBuffer :=
  readFinite "float" isFiniteFloat b.readUInt32 b

def readDouble (b : ByteBuffer) : Except Fault UInt64 × ByteBuffer :=
  readFinite "double" isFiniteDouble b.readUInt64 b

/-- `operator>>(std::array<uint8, Size>&)`. -/
def readArray (size : Nat) (b : ByteBuffer) : Except Fault (List UInt8) × ByteBuffer :=
  match b.readBytes size with
  | .ok (bytes, b') => (.ok bytes, b')
  | .error e => (.error e, b)

def insertItem (item : Item) (b : ByteBuffer) : Except Fault ByteBuffer :=
  match item with
  | .value v => b.insert v
  | .float bits => b.writeFloat bits
  | .double bits => b.writeDouble bits
  | .array bytes => b.append bytes
  | .packGUID guid => b.appendPackGUID guid

/-- What an extraction of a type has read. -/
def asItem {α : Type} (f : α → Item) (r : Except Fault α × ByteBuffer) :
    Except Fault Item × ByteBuffer :=
  (r.1.map f, r.2)

def extractItem (type : ItemType) (b : ByteBuffer) : Except Fault Item × ByteBuffer :=
  match type with
  | .value t => asItem .value (b.extract t)
  | .float => asItem .float b.readFloat
  | .double => asItem .double b.readDouble
  | .array size => asItem .array (b.readArray size)
  | .packGUID => asItem .packGUID b.readPackGUID

def insertItems (items : List Item) (b : ByteBuffer) : Except Fault ByteBuffer :=
  items.foldlM (fun b item => b.insertItem item) b

/-- `rfinish()`. -/
def rfinish (b : ByteBuffer) : ByteBuffer := { b with rpos := b.wpos }

/-- An operation of a buffer, and the values that were read so far. -/
def operate (s : ByteBuffer × List Item) : Op → Except Fault (ByteBuffer × List Item)
  | .insert item => do return (← s.1.insertItem item, s.2)
  | .append items => do
    let other ← new.insertItems items
    return (← s.1.appendBuffer other, s.2)
  | .extract type =>
    match s.1.extractItem type with
    | (.ok item, b) => .ok (b, s.2 ++ [item])
    | (.error e, _) => .error e
  | .seek pos => .ok ({ s.1 with rpos := pos }, s.2)
  | .finish => .ok (s.1.rfinish, s.2)
  | .clear => .ok (s.1.clear, s.2)

/-- The bytes and the positions of the buffer are those of the stream. -/
structure Shows (s : ByteBuffer × List Item) (t : TypedStream × List Item) : Prop where
  atEnd : s.1.AtEnd
  storage : s.1.storage = t.1.written.flatMap Item.bytes
  rpos : s.1.rpos = t.1.start t.1.read
  read_le : t.1.read ≤ t.1.written.length
  readable : ∀ item ∈ t.1.written, item.Readable
  answers : s.2 = t.2

/-! ### What the operations do -/

section Operations

variable {s : ByteBuffer × List Item} {t t' : TypedStream × List Item} {b : ByteBuffer}
  {item : Item}

theorem toLE_ne_nil {w : Nat} (n : Nat) (hw : 0 < w) : toLE w n ≠ [] :=
  List.ne_nil_of_length_pos (by rw [toLE_length]; exact hw)

theorem insertItem_eq (hitem : item.Readable) (h : b.AtEnd)
    (hn : b.size + item.bytes.length < limit) :
    b.insertItem item = .ok (b.extend item.bytes) := by
  have hb : b.size < 10000000 := Nat.lt_of_le_of_lt (Nat.le_add_right _ _) hn
  cases item with
  | value v => exact (appends_insert v).ok b h (Nat.lt_add_right _ hn)
  | float bits => exact h.append_eq (toLE_ne_nil _ (Nat.succ_pos 3)) hb
  | double bits => exact h.append_eq (toLE_ne_nil _ (Nat.succ_pos 7)) hb
  | array bytes => exact h.append_eq hitem hb
  | packGUID guid =>
    rw [insertItem, appendPackGUID_eq]
    exact h.append_eq (List.cons_ne_nil _ _) hb

theorem insertItems_eq : ∀ (items : List Item) (b : ByteBuffer),
    (∀ item ∈ items, item.Readable) → b.AtEnd →
    b.size + (items.flatMap Item.bytes).length < limit →
    b.insertItems items = .ok (b.extend (items.flatMap Item.bytes)) := by
  intro items
  induction items with
  | nil =>
    intro b _ h _
    rw [insertItems, List.foldlM_nil, List.flatMap_nil, h.extend_nil]
    rfl
  | cons item items ih =>
    intro b hitems h hn
    obtain ⟨hitem, hitems⟩ := List.forall_mem_cons.mp hitems
    rw [List.flatMap_cons, List.length_append] at hn
    have hrest := ih (b.extend item.bytes) hitems (extend_atEnd b item.bytes)
      (by rw [extend_size]; omega)
    rw [extend_extend] at hrest
    rw [insertItems, List.foldlM_cons, insertItem_eq hitem h (by omega), ok_bind,
      List.flatMap_cons]
    exact hrest

theorem appendBuffer_eq (h : b.AtEnd) (src : List UInt8) (hn : b.size + src.length < limit) :
    b.appendBuffer (new.extend src) = .ok (b.extend src) := by
  have hwpos : (new.extend src).wpos = src.length := rfl
  rw [appendBuffer, hwpos]
  by_cases hs : src = []
  · subst hs
    rw [h.extend_nil]
    rfl
  · have hlen : src.length ≠ 0 := fun h0 => hs (List.length_eq_zero_iff.mp h0)
    have hcontents : (new.extend src).contents = .ok src := by
      rw [contents, empty]
      change (if src.isEmpty = true then _ else _) = _
      rw [if_neg (by simpa using hs)]
      rfl
    rw [if_pos hlen, hcontents]
    dsimp only
    rw [List.take_length]
    exact h.append_eq hs (show b.size < limit by omega)

theorem reads_readArray (bytes : List UInt8) (hne : bytes ≠ []) :
    Reads (readArray bytes.length) bytes bytes := by
  intro b rest hb
  have hle := rpos_lt_of_drop hb (List.length_pos_iff.mpr hne)
  rw [readArray, readBytes_of_le hle, hb, List.take_left]
  rfl

theorem reads_readFloat {bits : UInt32} (h : isFiniteFloat bits = true) :
    Reads readFloat bits (toLE 4 bits.toNat) := by
  intro b rest hb
  have hread := readAs_eq UInt32.ofNat (Nat.succ_pos 3) bits.toNat_lt hb
  rw [UInt32.ofNat_toNat] at hread
  rw [readFloat, readUInt32, hread, readFinite, if_pos h, toLE_length]

theorem reads_readDouble {bits : UInt64} (h : isFiniteDouble bits = true) :
    Reads readDouble bits (toLE 8 bits.toNat) := by
  intro b rest hb
  have hread := readAs_eq UInt64.ofNat (Nat.succ_pos 7) bits.toNat_lt hb
  rw [UInt64.ofNat_toNat] at hread
  rw [readDouble, readUInt64, hread, readFinite, if_pos h, toLE_length]

theorem reads_asItem {α : Type} {reader : ByteBuffer → Except Fault α × ByteBuffer} {r : α}
    {bs : List UInt8} (h : Reads reader r bs) (f : α → Item) :
    Reads (fun b => asItem f (reader b)) (f r) bs := by
  intro b rest hb
  dsimp only
  rw [h b rest hb]
  rfl

theorem reads_item (item : Item) (h : item.Readable) :
    Reads (extractItem item.type) item item.bytes := by
  cases item with
  | value v => exact reads_asItem (extract_of_bytes v h) .value
  | float bits => exact reads_asItem (reads_readFloat h) .float
  | double bits => exact reads_asItem (reads_readDouble h) .double
  | array bytes => exact reads_asItem (reads_readArray bytes h) .array
  | packGUID guid => exact reads_asItem (reads_packedGUID guid) .packGUID

theorem Shows.extend (h : Shows s t) {items : List Item} (hitems : ∀ item ∈ items, item.Readable) :
    Shows (s.1.extend (items.flatMap Item.bytes), s.2)
      ({ t.1 with written := t.1.written ++ items }, t.2) where
  atEnd := extend_atEnd _ _
  storage := by
    change s.1.storage ++ _ = _
    rw [h.storage, List.flatMap_append]
  rpos := by
    change s.1.rpos = _
    rw [h.rpos, TypedStream.start, TypedStream.start]
    dsimp only
    rw [List.take_append_of_le_length h.read_le]
  read_le := by
    dsimp only
    rw [List.length_append]
    exact Nat.le_add_right_of_le h.read_le
  readable := by
    intro item hitem
    exact (List.mem_append.mp hitem).elim (h.readable item) (hitems item)
  answers := h.answers

theorem Shows.next (h : Shows s t) (hitem : t.1.written[t.1.read]? = some item) :
    s.1.extractItem item.type = (.ok item, s.1.skip item.bytes.length) ∧
      Shows (s.1.skip item.bytes.length, s.2 ++ [item])
        ({ t.1 with read := t.1.read + 1 }, t.2 ++ [item]) := by
  obtain ⟨hlt, hget⟩ := List.getElem?_eq_some_iff.mp hitem
  have hsplit : t.1.written.drop t.1.read = item :: t.1.written.drop (t.1.read + 1) := by
    rw [List.drop_eq_getElem_cons hlt, hget]
  have hdrop : s.1.storage.drop s.1.rpos = item.bytes ++
      (t.1.written.drop (t.1.read + 1)).flatMap Item.bytes := by
    have hparts : s.1.storage = (t.1.written.take t.1.read).flatMap Item.bytes ++
        (t.1.written.drop t.1.read).flatMap Item.bytes := by
      rw [h.storage, ← List.flatMap_append, List.take_append_drop]
    rw [hparts, h.rpos, TypedStream.start, List.drop_left, hsplit, List.flatMap_cons]
  have hreadable := h.readable item (List.mem_of_getElem? hitem)
  refine ⟨reads_item item hreadable _ _ hdrop, h.atEnd, h.storage, ?_, hlt, h.readable, ?_⟩
  · change s.1.rpos + item.bytes.length = _
    rw [h.rpos, TypedStream.start, TypedStream.start]
    dsimp only
    rw [List.take_succ_eq_append_getElem hlt, hget, List.flatMap_append, List.length_append]
    simp
  · exact congrArg (· ++ [item]) h.answers

theorem write_ok {u : TypedStream} {items : List Item} (h : t.1.write items = .ok u) :
    ((t.1.written ++ items).flatMap Item.bytes).length < limit ∧
      u = { t.1 with written := t.1.written ++ items } := by
  rw [TypedStream.write] at h
  split at h
  · cases h
    exact ⟨‹_›, rfl⟩
  · cases h

/-- **An operation of the stream is the operation of the buffer.** -/
theorem shows_step (h : Shows s t) {op : Op} (hop : op.Readable)
    (hs : TypedStream.step t op = .ok t') : ∃ s', operate s op = .ok s' ∧ Shows s' t' := by
  have hsize : s.1.size = (t.1.written.flatMap Item.bytes).length := by rw [size, h.storage]
  cases op with
  | insert item =>
    obtain ⟨u, hu, hs⟩ := bind_ok hs
    cases hs
    obtain ⟨hlt, rfl⟩ := write_ok hu
    have hreadable : ∀ i ∈ [item], i.Readable := fun i hi => by
      rw [List.mem_singleton.mp hi]
      exact hop
    have hextend := h.extend hreadable
    rw [List.flatMap_append, List.length_append, List.flatMap_singleton] at hlt
    rw [List.flatMap_singleton] at hextend
    refine ⟨_, ?_, hextend⟩
    rw [operate, insertItem_eq hop h.atEnd (by omega)]
    rfl
  | append items =>
    obtain ⟨u, hu, hs⟩ := bind_ok hs
    cases hs
    obtain ⟨hlt, rfl⟩ := write_ok hu
    rw [List.flatMap_append, List.length_append] at hlt
    refine ⟨_, ?_, h.extend hop⟩
    have hnew : new.size = 0 := rfl
    rw [operate, insertItems_eq items new hop new_atEnd (by omega), ok_bind,
      appendBuffer_eq h.atEnd _ (by omega)]
    rfl
  | extract type =>
    rw [TypedStream.step] at hs
    split at hs
    · rename_i item hitem
      split at hs
      · rename_i htype
        cases hs
        subst htype
        obtain ⟨hextract, hshows⟩ := h.next hitem
        exact ⟨_, by rw [operate, hextract], hshows⟩
      · cases hs
    · cases hs
  | seek pos =>
    rw [TypedStream.step] at hs
    split at hs
    · rename_i n hn
      cases hs
      have hpos : t.1.start n = pos := by simpa using List.find?_some hn
      have hle := List.mem_range.mp (List.mem_of_find?_eq_some hn)
      exact ⟨_, rfl, h.atEnd, h.storage, hpos.symm, Nat.le_of_lt_succ hle, h.readable, h.answers⟩
    · cases hs
  | finish =>
    cases hs
    refine ⟨_, rfl, h.atEnd, h.storage, ?_, Nat.le_refl _, h.readable, h.answers⟩
    have hwpos : s.1.wpos = s.1.storage.length := h.atEnd
    change s.1.wpos = _
    rw [TypedStream.start]
    dsimp only
    rw [List.take_length, hwpos, h.storage]
  | clear =>
    cases hs
    exact ⟨_, rfl, rfl, rfl, rfl, Nat.le_refl _, fun _ hx => absurd hx List.not_mem_nil, h.answers⟩

/-- **A `ByteBuffer` is a stream of values.**  Whatever is written, read, appended and cleared,
and wherever the read position is set to the start of a value, in any order, as long as the
stream allows it: the buffer does not fail, gives the same values, and in the end its bytes and
its positions are those of the stream. -/
theorem buffer_refines (ops : List Op) (hops : ∀ op ∈ ops, op.Readable)
    (h : run TypedStream.step (⟨[], 0⟩, []) ops = .ok t) :
    ∃ s, run operate (new, []) ops = .ok s ∧ Shows s t := by
  have hsim : ∀ (s : ByteBuffer × List Item) (t : TypedStream × List Item) (op : Op) t', Shows s t →
      op.Readable → TypedStream.step t op = .ok t' → ∃ s', operate s op = .ok s' ∧ Shows s' t' :=
    fun _ _ _ _ hshows hop hs => shows_step hshows hop hs
  exact run_simulates hsim ops (new, []) (⟨[], 0⟩, []) t
    ⟨rfl, rfl, rfl, Nat.le_refl _, fun _ hx => absurd hx List.not_mem_nil, rfl⟩ hops h

/-- Two values are written and one is read, before a buffer with others is appended.  Then the
second one is read again: it starts at the third byte. -/
def mixedOps : List Op :=
  [.insert (.value (.uint16 7)), .insert (.packGUID 0x100), .extract (.value .uint16),
    .append [.value (.string [104]), .float 0x3F800000], .extract .packGUID,
    .extract (.value .string), .insert (.array [1, 2, 3]), .extract .float, .extract (.array 3),
    .seek 2, .extract .packGUID]

theorem buffer_refines_mixed : ∃ s, run operate (new, []) mixedOps = .ok s ∧
    s.2 = [.value (.uint16 7), .packGUID 0x100, .value (.string [104]), .float 0x3F800000,
      .array [1, 2, 3], .packGUID 0x100] := by
  have hops : ∀ op ∈ mixedOps, op.Readable := by
    intro op hop
    simp only [mixedOps, List.mem_cons, List.not_mem_nil, or_false] at hop
    rcases hop with rfl | rfl | rfl | rfl | rfl | rfl | rfl | rfl | rfl | rfl | rfl
    all_goals try exact trivial
    · refine List.forall_mem_cons.mpr ⟨⟨(Utf8.isValid_iff _).mp (by decide), by decide⟩, ?_⟩
      intro item hitem
      rw [List.mem_singleton.mp hitem]
      exact (by decide : isFiniteFloat 0x3F800000 = true)
    · exact List.cons_ne_nil _ _
  obtain ⟨t, ht, hanswers⟩ := ok_of_any
    (p := fun t : TypedStream × List Item =>
      decide (t.2 = [.value (.uint16 7), .packGUID 0x100, .value (.string [104]),
        .float 0x3F800000, .array [1, 2, 3], .packGUID 0x100]))
    (x := run TypedStream.step (⟨[], 0⟩, []) mixedOps) (by decide +kernel)
  obtain ⟨s, hs, hshows⟩ := buffer_refines mixedOps hops ht
  exact ⟨s, hs, hshows.answers.trans (of_decide_eq_true hanswers)⟩

end Operations

end ByteBuffer

end WarheadDiscord
