import WarheadDiscord.Shared.ByteBufferBounds
import WarheadDiscord.Shared.PackGUID

/-!
# Where a failed extraction leaves the read position

The readers of a single value check before they move the read position.  `ReadCString` checks
the string that it has read, and `readPackGUID` each byte in turn.  Nothing moves the position
back.

* `readCStringLoop_consumed`: how far a string is read, whatever follows.
* `readPackGUIDLoop_error`: a packed guid throws at the end of the content.
* `failedExtraction_spec`: the read position after every kind of extraction that throws.
-/

namespace WarheadDiscord.ByteBuffer

open Lib

/-- `operator>>` for an integer, a `bool` or a string, `read(dest, len)`, `read_skip(skip)` and
`readPackGUID`. -/
inductive Extraction where
  | value (type : ValueType)
  | read (len : UInt64)
  | readSkip (skip : UInt64)
  | readPackGUID
  deriving DecidableEq, Repr

/-- What is thrown, if something is. -/
def thrown {α : Type} : Except Fault α → Option Fault
  | .ok _ => none
  | .error e => some e

/-- What the extraction throws, and the buffer after it. -/
def Extraction.attempt (x : Extraction) (b : ByteBuffer) : Option Fault × ByteBuffer :=
  match x with
  | .value type =>
    match b.extract type with
    | (r, b') => (thrown r, b')
  | .read len =>
    match SizeT.read b len with
    | .ok (_, b') => (none, b')
    | .error e => (some e, b)
  | .readSkip skip =>
    match SizeT.readSkip b skip with
    | .ok b' => (none, b')
    | .error e => (some e, b)
  | .readPackGUID =>
    match b.readPackGUID with
    | (r, b') => (thrown r, b')

/-- The extraction ends in an exception, with the buffer `b'`. -/
def Extraction.Throws (x : Extraction) (b b' : ByteBuffer) : Prop :=
  ∃ e : Fault, e.what.isSome ∧ x.attempt b = (some e, b')

/-! ### Strings -/

/-- The bytes up to the next NUL, or up to the end. -/
def nextString (b : ByteBuffer) : List UInt8 := (b.storage.drop b.rpos).takeWhile (· ≠ 0)

/-- How many bytes of a text `ReadCString` reads. -/
def consumed : List UInt8 → Nat
  | [] => 0
  | c :: cs => if c = 0 then 1 else consumed cs + 1

theorem consumed_eq (cs : List UInt8) :
    consumed cs = min ((cs.takeWhile (· ≠ 0)).length + 1) cs.length := by
  induction cs with
  | nil => simp [consumed]
  | cons c cs ih =>
    rw [consumed, List.takeWhile_cons]
    by_cases hc : c = 0
    · simp [hc]
    · simp only [hc, if_false, ih, ne_eq, not_false_eq_true, decide_true, if_true,
        List.length_cons]
      omega

theorem readCStringLoop_consumed : ∀ (cs pre : List UInt8) (b : ByteBuffer) (fuel : Nat),
    b.storage.drop b.rpos = cs → cs.length ≤ fuel →
    readCStringLoop fuel pre b = (.ok (pre ++ cs.takeWhile (· ≠ 0)), b.skip (consumed cs)) := by
  intro cs
  induction cs with
  | nil =>
    intro pre b fuel h _
    have hend : ¬ b.rpos < b.size := by
      rw [size, not_lt]
      exact List.drop_eq_nil_iff.mp h
    cases fuel <;> rw [readCStringLoop, if_neg hend] <;> simp [consumed, skip]
  | cons c cs ih =>
    intro pre b fuel h hf
    rw [List.length_cons] at hf
    obtain ⟨fuel, rfl⟩ := Nat.exists_eq_succ_of_ne_zero (show fuel ≠ 0 by omega)
    have h : b.storage.drop b.rpos = [c] ++ cs := h
    have hlt : b.rpos < b.size := rpos_lt_of_drop h Nat.one_pos
    rw [readCStringLoop, if_pos hlt, readUInt8_eq h]
    dsimp only
    by_cases hc : c = 0
    · rw [if_pos hc, consumed, if_pos hc]
      simp [hc]
    · rw [if_neg hc, ih (pre ++ [c]) (b.skip 1) fuel (drop_skip h) (by omega), consumed,
        if_neg hc, skip_skip, Nat.add_comm 1]
      simp [hc]

/-- The read position behind the next string. -/
def stringEnd (b : ByteBuffer) : Nat := min (b.rpos + b.nextString.length + 1) b.size

variable {b b' : ByteBuffer}

/-- **A string is read to its end before it is checked.** -/
theorem readCString_eq (hr : b.rpos ≤ b.size) :
    b.readCString true =
      (if Utf8.isValid b.nextString then .ok b.nextString
        else .error (.byteBufferInvalidValue "string" b.nextString),
        { b with rpos := b.stringEnd }) := by
  have hlen : (b.storage.drop b.rpos).length = b.size - b.rpos := List.length_drop
  have hloop := readCStringLoop_consumed (b.storage.drop b.rpos) [] b (b.size - b.rpos) rfl
    (by omega)
  have hend : b.rpos + consumed (b.storage.drop b.rpos) = b.stringEnd := by
    rw [consumed_eq, hlen, stringEnd, nextString]
    omega
  rw [readCString, hloop, List.nil_append, skip, hend]
  dsimp only
  rw [← nextString]
  cases Utf8.isValid b.nextString <;> rfl

theorem rpos_lt_stringEnd (hr : b.rpos ≤ b.size) (h : Utf8.isValid b.nextString = false) :
    b.rpos < b.stringEnd := by
  have hne : b.nextString ≠ [] := by
    intro hnil
    rw [hnil] at h
    exact absurd h (by decide)
  have hpos := List.length_pos_iff.mpr hne
  have hle : b.nextString.length ≤ b.size - b.rpos := by
    rw [nextString, size, ← List.length_drop]
    exact (List.takeWhile_sublist _).length_le
  rw [stringEnd]
  omega

/-! ### Packed guids -/

theorem readUInt8_of_lt (h : b.rpos < b.size) : ∃ c, b.readUInt8 = .ok (c, b.skip 1) := by
  rw [readUInt8, readBytes_of_le h]
  exact ⟨_, rfl⟩

/-- **The loop throws at the end of the content.** -/
theorem readPackGUIDLoop_error (guidmark : UInt8) {e : Fault} : ∀ (is : List Nat)
    (guid : UInt64) (b : ByteBuffer), b.rpos ≤ b.size →
    readPackGUIDLoop guidmark is guid b = (.error e, b') → b' = { b with rpos := b.size } := by
  intro is
  induction is with
  | nil =>
    intro guid b _ h
    simp [readPackGUIDLoop] at h
  | cons i is ih =>
    intro guid b hr h
    rw [readPackGUIDLoop] at h
    split at h
    · by_cases hend : b.rpos + 1 > b.size
      · have hsize : b.size = b.rpos := by omega
        rw [if_pos hend] at h
        rw [hsize]
        exact (Prod.mk.inj h).2.symm
      · obtain ⟨c, hc⟩ := readUInt8_of_lt (b := b) (by omega)
        rw [if_neg hend, hc] at h
        exact ih _ (b.skip 1) (show b.rpos + 1 ≤ b.size by omega) h
    · exact ih guid b hr h

theorem readPackGUID_error {e : Fault} (hr : b.rpos ≤ b.size)
    (h : b.readPackGUID = (.error e, b')) : b' = { b with rpos := b.size } := by
  rw [readPackGUID] at h
  by_cases hend : b.rpos + 1 > b.size
  · have hsize : b.size = b.rpos := by omega
    rw [if_pos hend] at h
    rw [hsize]
    exact (Prod.mk.inj h).2.symm
  · obtain ⟨c, hc⟩ := readUInt8_of_lt (b := b) (by omega)
    rw [if_neg hend, hc] at h
    exact readPackGUIDLoop_error c _ _ (b.skip 1) (show b.rpos + 1 ≤ b.size by omega) h

/-! ### All extractions -/

/-- The read position after an extraction that throws. -/
def Extraction.positionAfterThrow (x : Extraction) (b : ByteBuffer) : Nat :=
  match x with
  | .value .string => b.stringEnd
  | .readPackGUID => b.size
  | _ => b.rpos

theorem asValue_error {α : Type} {f : α → Value} {r : Except Fault (α × ByteBuffer)} {e : Fault}
    (h : thrown (b.asValue f r).1 = some e) : (b.asValue f r).2 = b := by
  cases r with
  | ok r => cases h
  | error e => rfl

theorem extract_error {type : ValueType} {e : Fault} (ht : type ≠ .string)
    (h : thrown (b.extract type).1 = some e) : (b.extract type).2 = b := by
  cases type with
  | string => exact absurd rfl ht
  | _ => exact asValue_error h

theorem extract_string_error {e : Fault} (hr : b.rpos ≤ b.size)
    (h : thrown (b.extract .string).1 = some e) :
    Utf8.isValid b.nextString = false ∧ (b.extract .string).2 = { b with rpos := b.stringEnd } := by
  rw [extract, readCString_eq hr] at h ⊢
  cases hv : Utf8.isValid b.nextString with
  | true =>
    rw [hv] at h
    cases h
  | false => exact ⟨rfl, rfl⟩

/-- **Where an extraction that throws leaves the buffer.**  Integers, `bool`, `read` and
`read_skip` leave it as it was.  A string throws when it is not valid UTF-8, and then the read
position has moved behind its NUL or to the end.  A packed guid throws with the read position at
the end, where it was already if nothing was left to read.  Nothing else changes. -/
theorem failedExtraction_spec (hr : b.rpos ≤ b.size) (x : Extraction) (h : x.Throws b b') :
    b' = { b with rpos := x.positionAfterThrow b } ∧
      (x = .value .string → ¬ Utf8.ValidUtf8 b.nextString ∧ b.rpos < b'.rpos) := by
  obtain ⟨e, -, h⟩ := h
  cases x with
  | value type =>
    rw [Extraction.attempt] at h
    obtain ⟨hthrown, hbuffer⟩ := Prod.mk.inj h
    by_cases ht : type = .string
    · subst ht
      obtain ⟨hvalid, hend⟩ := extract_string_error hr hthrown
      have hb' : b' = { b with rpos := b.stringEnd } := hbuffer.symm.trans hend
      refine ⟨hb', fun _ => ⟨?_, ?_⟩⟩
      · rw [← Utf8.isValid_iff, hvalid]
        decide
      · rw [hb']
        exact rpos_lt_stringEnd hr hvalid
    · have hb' : b' = b := hbuffer.symm.trans (extract_error ht hthrown)
      refine ⟨?_, fun hx => absurd (Extraction.value.inj hx) ht⟩
      rw [hb']
      cases type with
      | string => exact absurd rfl ht
      | _ => rfl
  | read len =>
    rw [Extraction.attempt] at h
    cases hread : SizeT.read b len with
    | ok r =>
      rw [hread] at h
      cases h
    | error e =>
      rw [hread] at h
      exact ⟨(Prod.mk.inj h).2.symm, by rintro ⟨⟩⟩
  | readSkip skip =>
    rw [Extraction.attempt] at h
    cases hskip : SizeT.readSkip b skip with
    | ok r =>
      rw [hskip] at h
      cases h
    | error e =>
      rw [hskip] at h
      exact ⟨(Prod.mk.inj h).2.symm, by rintro ⟨⟩⟩
  | readPackGUID =>
    rw [Extraction.attempt] at h
    cases hread : b.readPackGUID with
    | mk r b'' =>
      rw [hread] at h
      obtain ⟨hthrown, hbuffer⟩ := Prod.mk.inj h
      cases r with
      | ok guid => cases hthrown
      | error e =>
        rw [← hbuffer]
        exact ⟨readPackGUID_error hr hread, by rintro ⟨⟩⟩

/-- A string of two bytes that are not UTF-8, with its NUL and a byte behind it. -/
theorem failedExtraction_spec_string :
    (Extraction.value .string).Throws ⟨0, 4, [0xe2, 0x82, 0, 7]⟩ ⟨3, 4, [0xe2, 0x82, 0, 7]⟩ ∧
    (⟨3, 4, [0xe2, 0x82, 0, 7]⟩ : ByteBuffer) =
      { rpos := (Extraction.value .string).positionAfterThrow ⟨0, 4, [0xe2, 0x82, 0, 7]⟩
        wpos := 4, storage := [0xe2, 0x82, 0, 7] } := by
  have hthrows :
      (Extraction.value .string).Throws ⟨0, 4, [0xe2, 0x82, 0, 7]⟩ ⟨3, 4, [0xe2, 0x82, 0, 7]⟩ :=
    ⟨.byteBufferInvalidValue "string" [0xe2, 0x82], by decide, by decide⟩
  exact ⟨hthrows, (failedExtraction_spec (by decide) _ hthrows).1⟩

/-- **A string that is not valid UTF-8, and a packed guid whose mask asks for more than there is,
do move the read position.** -/
theorem failedExtraction_moves :
    (Extraction.value .string).attempt ⟨0, 2, [0xff, 0]⟩ =
      (some (.byteBufferInvalidValue "string" [0xff]), ⟨2, 2, [0xff, 0]⟩) ∧
    Extraction.readPackGUID.attempt ⟨0, 2, [3, 7]⟩ =
      (some (.byteBufferPosition false 2 1 2), ⟨2, 2, [3, 7]⟩) := by
  decide

end WarheadDiscord.ByteBuffer
