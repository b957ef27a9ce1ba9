import WarheadDiscord.Lib.Bits
import WarheadDiscord.Shared.Serialisation

/-!
# Packed guids

A guid is packed as a mask that tells which of its eight bytes are not zero, and these bytes
behind it, the least significant one first.

* `packMask`: the mask of a list of bytes.
* `appendPackGUIDLoop_eq`, `readPackGUIDLoop_eq`: what the two loops do from a byte on.
* `appendPackGUID_spec`: what is appended is read back.
-/

namespace WarheadDiscord.ByteBuffer

open Lib

/-! ### The two functions -/

/-- The loop of `appendPackGUID`, from byte `i` on: `packGUID[0]`, and what is behind it. -/
def appendPackGUIDLoop (guid : UInt64) (i : Nat) (mark : UInt8) (packed : List UInt8) :
    UInt8 × List UInt8 :=
  if guid = 0 then (mark, packed)
  else if guid &&& 0xFF ≠ 0 then
    appendPackGUIDLoop (guid >>> 8) (i + 1) (mark ||| UInt8.ofNat (1 <<< i))
      (packed ++ [(guid &&& 0xFF).toUInt8])
  else appendPackGUIDLoop (guid >>> 8) (i + 1) mark packed
termination_by guid.toNat
decreasing_by
  all_goals
    have hne : guid.toNat ≠ 0 := fun h => ‹¬ guid = 0› (UInt64.toNat_inj.mp h)
    have hshift : (guid >>> 8).toNat = guid.toNat / 256 := by
      rw [UInt64.toNat_shiftRight]
      exact Nat.shiftRight_eq_div_pow _ _
    omega

/-- `appendPackGUID(uint64 guid)`. -/
def appendPackGUID (b : ByteBuffer) (guid : UInt64) : Except Fault ByteBuffer :=
  match appendPackGUIDLoop guid 0 0 [] with
  | (mark, packed) => b.append (mark :: packed)

/-- The loop of `readPackGUID` over the bits of the mask. -/
def readPackGUIDLoop (guidmark : UInt8) :
    List Nat → UInt64 → ByteBuffer → Except Fault UInt64 × ByteBuffer
  | [], guid, b => (.ok guid, b)
  | i :: is, guid, b =>
    if guidmark.toNat &&& 1 <<< i ≠ 0 then
      if b.rpos + 1 > b.size then (.error (.byteBufferPosition false b.rpos 1 b.size), b)
      else
        match b.readUInt8 with
        | .ok (bit, b') =>
          readPackGUIDLoop guidmark is (guid ||| bit.toUInt64 <<< UInt64.ofNat (i * 8)) b'
        | .error e => (.error e, b)
    else readPackGUIDLoop guidmark is guid b

/-- `readPackGUID(uint64& guid)`, with the buffer also where it throws. -/
def readPackGUID (b : ByteBuffer) : Except Fault UInt64 × ByteBuffer :=
  if b.rpos + 1 > b.size then (.error (.byteBufferPosition false b.rpos 1 b.size), b)
  else
    match b.readUInt8 with
    | .ok (guidmark, b') => readPackGUIDLoop guidmark (List.range 8) 0 b'
    | .error e => (.error e, b)

/-! ### Masks -/

/-- The mask of the bytes that are not zero, as a number. -/
def packMask : List UInt8 → Nat
  | [] => 0
  | c :: cs => (if c = 0 then 0 else 1) + 2 * packMask cs

/-- The bytes behind the mask. -/
def packedBytes (cs : List UInt8) : List UInt8 := cs.filter (· ≠ 0)

@[simp] theorem packedBytes_zero (cs : List UInt8) : packedBytes (0 :: cs) = packedBytes cs := by
  simp [packedBytes]

theorem packedBytes_cons {c : UInt8} (hc : c ≠ 0) (cs : List UInt8) :
    packedBytes (c :: cs) = c :: packedBytes cs := by
  simp [packedBytes, hc]

theorem packMask_lt (cs : List UInt8) : packMask cs < 2 ^ cs.length := by
  induction cs with
  | nil => decide
  | cons c cs ih =>
    rw [packMask, List.length_cons, Nat.pow_succ]
    split <;> omega

theorem pack_toLE_zero (k : Nat) : packMask (toLE k 0) = 0 ∧ packedBytes (toLE k 0) = [] := by
  induction k with
  | zero => exact ⟨rfl, rfl⟩
  | succ k ih =>
    obtain ⟨hmask, hbytes⟩ := ih
    have hcons : toLE (k + 1) 0 = 0 :: toLE k 0 := rfl
    rw [hcons, packMask, packedBytes_zero, hmask, hbytes]
    exact ⟨rfl, rfl⟩

/-! ### The writer -/

theorem shiftRight_eight (guid : UInt64) : (guid >>> 8).toNat = guid.toNat / 256 := by
  rw [UInt64.toNat_shiftRight]
  exact Nat.shiftRight_eq_div_pow _ _

theorem and_255 (guid : UInt64) : (guid &&& 0xFF).toUInt8 = UInt8.ofNat guid.toNat := by
  apply UInt8.toNat_inj.mp
  have hmask : (0xFF : UInt64).toNat = 2 ^ 8 - 1 := rfl
  rw [UInt64.toNat_toUInt8, UInt64.toNat_and, hmask, Nat.and_two_pow_sub_one_eq_mod,
    UInt8.toNat_ofNat', Nat.mod_mod]

theorem and_255_eq_zero_iff (guid : UInt64) :
    guid &&& 0xFF = 0 ↔ UInt8.ofNat guid.toNat = 0 := by
  have hmask : (0xFF : UInt64).toNat = 2 ^ 8 - 1 := rfl
  rw [← UInt64.toNat_inj, ← UInt8.toNat_inj, UInt64.toNat_and, hmask,
    Nat.and_two_pow_sub_one_eq_mod, UInt8.toNat_ofNat']
  rfl

theorem mark_or {mark : UInt8} {i : Nat} (hi : i < 8) (hm : mark.toNat < 2 ^ i) :
    (mark ||| UInt8.ofNat (1 <<< i)).toNat = mark.toNat + 2 ^ i := by
  have hlt : 2 ^ i < 2 ^ 8 := Nat.pow_lt_pow_right (by decide) hi
  have hbit : (UInt8.ofNat (1 <<< i)).toNat = 1 <<< i := by
    rw [UInt8.toNat_ofNat', Nat.one_shiftLeft, Nat.mod_eq_of_lt hlt]
  rw [UInt8.toNat_or, hbit, or_shiftLeft hm, Nat.mul_one]

/-- **The loop adds the mask and the bytes of what is left of the guid.** -/
theorem appendPackGUIDLoop_eq : ∀ (k i : Nat) (guid : UInt64) (mark : UInt8)
    (packed : List UInt8), i + k = 8 → guid.toNat < 256 ^ k → mark.toNat < 2 ^ i →
    appendPackGUIDLoop guid i mark packed =
      (UInt8.ofNat (mark.toNat + 2 ^ i * packMask (toLE k guid.toNat)),
        packed ++ packedBytes (toLE k guid.toNat)) := by
  intro k
  induction k with
  | zero =>
    intro i guid mark packed _ hg _
    have h0 : guid = 0 := UInt64.toNat_inj.mp (Nat.lt_one_iff.mp hg)
    rw [appendPackGUIDLoop, if_pos h0]
    simp [toLE, packMask, packedBytes]
  | succ k ih =>
    intro i guid mark packed hi hg hm
    rw [appendPackGUIDLoop]
    by_cases h0 : guid = 0
    · obtain ⟨hmask, hbytes⟩ := pack_toLE_zero (k + 1)
      rw [if_pos h0, h0, UInt64.toNat_zero, hmask, hbytes]
      simp
    · have hrest : (guid >>> 8).toNat < 256 ^ k := by
        rw [shiftRight_eight]
        rw [Nat.pow_succ] at hg
        omega
      have hpow : 2 ^ (i + 1) = 2 ^ i * 2 := Nat.pow_succ ..
      have hcons : toLE (k + 1) guid.toNat =
          UInt8.ofNat guid.toNat :: toLE k (guid >>> 8).toNat := by
        rw [toLE, shiftRight_eight]
      rw [if_neg h0, hcons, packMask]
      by_cases hc : UInt8.ofNat guid.toNat = 0
      · have hand := (and_255_eq_zero_iff guid).mpr hc
        rw [if_neg (not_not.mpr hand), ih (i + 1) _ mark packed (by omega) hrest (by omega),
          if_pos hc, hc, packedBytes_zero, hpow, Nat.zero_add, Nat.mul_assoc]
      · have hand := mt (and_255_eq_zero_iff guid).mp hc
        have hmark := mark_or (by omega) hm
        rw [if_pos hand, ih (i + 1) _ _ _ (by omega) hrest (by omega), if_neg hc,
          packedBytes_cons hc, hmark, and_255, hpow, List.append_assoc, Nat.mul_add, Nat.mul_one,
          Nat.mul_assoc, Nat.add_assoc]
        rfl

/-- What `appendPackGUID` appends. -/
def packedGUID (guid : UInt64) : List UInt8 :=
  UInt8.ofNat (packMask (toLE 8 guid.toNat)) :: packedBytes (toLE 8 guid.toNat)

theorem appendPackGUID_eq (b : ByteBuffer) (guid : UInt64) :
    b.appendPackGUID guid = b.append (packedGUID guid) := by
  rw [appendPackGUID, appendPackGUIDLoop_eq 8 0 guid 0 [] rfl guid.toNat_lt (by decide)]
  simp [packedGUID]

/-! ### The reader -/

variable {b : ByteBuffer} {rest : List UInt8}

theorem guid_or {guid : UInt64} {i : Nat} (hi : i < 8) (hg : guid.toNat < 256 ^ i) (c : UInt8) :
    (guid ||| c.toUInt64 <<< UInt64.ofNat (i * 8)).toNat = guid.toNat + 256 ^ i * c.toNat := by
  have hpow : 256 ^ i = 2 ^ (i * 8) := by rw [Nat.mul_comm, Nat.pow_mul]
  have hc := c.toNat_lt
  have hfit : c.toNat * 2 ^ (i * 8) < 2 ^ 64 := by
    calc c.toNat * 2 ^ (i * 8) < 2 ^ 8 * 2 ^ (i * 8) :=
          Nat.mul_lt_mul_of_pos_right hc (Nat.two_pow_pos _)
      _ = 2 ^ (8 + i * 8) := (Nat.pow_add 2 8 (i * 8)).symm
      _ ≤ 2 ^ 64 := Nat.pow_le_pow_right (by decide) (by omega)
  have hshift : (c.toUInt64 <<< UInt64.ofNat (i * 8)).toNat = c.toNat <<< (i * 8) := by
    have hi8 : (UInt64.ofNat (i * 8)).toNat % 64 = i * 8 := by
      rw [UInt64.toNat_ofNat']
      omega
    rw [UInt64.toNat_shiftLeft, UInt8.toNat_toUInt64, hi8]
    rw [Nat.shiftLeft_eq, Nat.mod_eq_of_lt hfit]
  rw [hpow] at hg ⊢
  rw [UInt64.toNat_or, hshift, or_shiftLeft hg]

/-- **The loop reads the bytes that the mask tells.** -/
theorem readPackGUIDLoop_eq (guidmark : UInt8) : ∀ (cs : List UInt8) (i : Nat) (guid : UInt64)
    (b : ByteBuffer), i + cs.length = 8 → guid.toNat < 256 ^ i →
    guidmark.toNat / 2 ^ i = packMask cs → b.storage.drop b.rpos = packedBytes cs ++ rest →
    ∃ g : UInt64, g.toNat = guid.toNat + 256 ^ i * ofLE cs ∧
      readPackGUIDLoop guidmark (List.range' i cs.length) guid b =
        (.ok g, b.skip (packedBytes cs).length) := by
  intro cs
  induction cs with
  | nil =>
    intro i guid b _ _ _ _
    exact ⟨guid, by rw [ofLE, Nat.mul_zero, Nat.add_zero], rfl⟩
  | cons c cs ih =>
    intro i guid b hi hg hmask hdrop
    rw [List.length_cons] at hi
    have hnext : guidmark.toNat / 2 ^ (i + 1) = packMask cs := by
      rw [Nat.pow_succ, ← Nat.div_div_eq_div_mul, hmask, packMask]
      split <;> omega
    have hpow : 256 ^ (i + 1) = 256 ^ i * 256 := Nat.pow_succ ..
    rw [List.length_cons, List.range'_succ, readPackGUIDLoop]
    by_cases hc : c = 0
    · have hbit : ¬ guidmark.toNat &&& 1 <<< i ≠ 0 := by
        rw [and_shiftLeft_one_ne_zero_iff, hmask, packMask, if_pos hc]
        omega
      subst hc
      rw [packedBytes_zero] at hdrop
      obtain ⟨g, hval, hrun⟩ := ih (i + 1) guid b (by omega) (by omega) hnext hdrop
      refine ⟨g, ?_, ?_⟩
      · rw [hval, ofLE, hpow, UInt8.toNat_zero, Nat.zero_add, Nat.mul_assoc]
      · rw [if_neg hbit, hrun, packedBytes_zero]
    · have hbit : guidmark.toNat &&& 1 <<< i ≠ 0 := by
        rw [and_shiftLeft_one_ne_zero_iff, hmask, packMask, if_neg hc]
        omega
      rw [packedBytes_cons hc] at hdrop
      have hdrop : b.storage.drop b.rpos = [c] ++ (packedBytes cs ++ rest) := hdrop
      have hlt := rpos_lt_of_drop hdrop Nat.one_pos
      rw [List.length_singleton] at hlt
      have hor := guid_or (by omega) hg c
      have hc256 := c.toNat_lt
      have hbound : (guid ||| c.toUInt64 <<< UInt64.ofNat (i * 8)).toNat < 256 ^ (i + 1) := by
        rw [hor, hpow]
        have := Nat.mul_le_mul_left (256 ^ i) (show c.toNat ≤ 255 by omega)
        omega
      obtain ⟨g, hval, hrun⟩ :=
        ih (i + 1) _ (b.skip 1) (by omega) hbound hnext (drop_skip hdrop)
      refine ⟨g, ?_, ?_⟩
      · rw [hval, hor, ofLE, hpow, Nat.mul_add, Nat.mul_assoc, Nat.add_assoc]
      · rw [if_pos hbit, if_neg (by omega), readUInt8_eq hdrop]
        dsimp only
        rw [hrun, packedBytes_cons hc, skip_skip, List.length_cons, Nat.add_comm 1]

/-- **Reading at a packed guid gives the guid.** -/
theorem reads_packedGUID (guid : UInt64) : Reads readPackGUID guid (packedGUID guid) := by
  intro b rest hdrop
  have hmask : (UInt8.ofNat (packMask (toLE 8 guid.toNat))).toNat =
      packMask (toLE 8 guid.toNat) := by
    have hlt := packMask_lt (toLE 8 guid.toNat)
    rw [toLE_length] at hlt
    rw [UInt8.toNat_ofNat', Nat.mod_eq_of_lt hlt]
  have hdrop : b.storage.drop b.rpos = [UInt8.ofNat (packMask (toLE 8 guid.toNat))] ++
      (packedBytes (toLE 8 guid.toNat) ++ rest) := hdrop
  have hlt := rpos_lt_of_drop hdrop Nat.one_pos
  rw [List.length_singleton] at hlt
  obtain ⟨g, hval, hrun⟩ := readPackGUIDLoop_eq (UInt8.ofNat (packMask (toLE 8 guid.toNat)))
    (toLE 8 guid.toNat) 0 0 (b.skip 1) (by rw [toLE_length]) (by decide)
    (by rw [hmask, Nat.pow_zero, Nat.div_one]) (drop_skip hdrop)
  have hg : g = guid := by
    apply UInt64.toNat_inj.mp
    rw [hval, ofLE_toLE guid.toNat_lt, UInt64.toNat_zero]
    omega
  rw [toLE_length, ← List.range_eq_range'] at hrun
  rw [readPackGUID, if_neg (by omega), readUInt8_eq hdrop]
  dsimp only
  rw [hrun, hg, skip_skip, packedGUID, List.length_cons, Nat.add_comm 1]

/-! ### Appending at any position

The write position need not be at the end: `append` then writes over what is there. -/

/-- The storage that `append` writes into. -/
def grownStorage (b : ByteBuffer) (n : Nat) : List UInt8 :=
  if b.size < b.wpos + n then resizeStorage b.storage (b.wpos + n) else b.storage

theorem grownStorage_length (b : ByteBuffer) (n : Nat) :
    (b.grownStorage n).length = max b.size (b.wpos + n) := by
  rw [grownStorage]
  split
  · rw [resizeStorage_length]
    omega
  · rw [size] at *
    omega

theorem grownStorage_getElem? (b : ByteBuffer) (n : Nat) {i : Nat} (hi : i < b.size) :
    (b.grownStorage n)[i]? = b.storage[i]? := by
  rw [grownStorage]
  split
  case isTrue hgrow =>
    rw [size] at hi hgrow
    rw [resizeStorage, List.getElem?_append_left (by rw [List.length_take]; omega),
      List.getElem?_take_of_lt (by omega)]
  case isFalse => rfl

theorem grownStorage_drop (b : ByteBuffer) (n : Nat) :
    (b.grownStorage n).drop (b.wpos + n) = b.storage.drop (b.wpos + n) := by
  rw [grownStorage]
  split
  · rw [List.drop_eq_nil_of_le (by rw [resizeStorage_length]), List.drop_eq_nil_of_le]
    rw [size] at *
    omega
  · rfl

theorem overwrite_drop {storage data : List UInt8} {pos : Nat} (h : pos ≤ storage.length) :
    (overwrite storage pos data).drop pos = data ++ storage.drop (pos + data.length) := by
  have hlen : (storage.take pos).length = pos := by
    rw [List.length_take]
    omega
  rw [overwrite, List.append_assoc, List.drop_left' hlen]

theorem overwrite_getElem? {storage data : List UInt8} {pos i : Nat}
    (h : pos + data.length ≤ storage.length) (hi : i < pos ∨ pos + data.length ≤ i) :
    (overwrite storage pos data)[i]? = storage[i]? := by
  have hlen : (storage.take pos).length = pos := by
    rw [List.length_take]
    omega
  rw [overwrite, List.append_assoc]
  rcases hi with hi | hi
  · rw [List.getElem?_append_left (by omega), List.getElem?_take_of_lt hi]
  · rw [List.getElem?_append_right (by omega), hlen, List.getElem?_append_right (by omega),
      List.getElem?_drop]
    congr 1
    omega

/-- **What `append` does below its limit**: the bytes stand behind each other from the write
position on, and everything else in the content is as before. -/
theorem append_spec (b : ByteBuffer) {src : List UInt8} (hs : src ≠ []) (hb : b.size < 10000000) :
    ∃ b', b.append src = .ok b' ∧ b'.rpos = b.rpos ∧ b'.wpos = b.wpos + src.length ∧
      b'.size = max b.size (b.wpos + src.length) ∧
      b'.storage.drop b.wpos = src ++ b.storage.drop (b.wpos + src.length) ∧
      ∀ i, i < b.size → i < b.wpos ∨ b.wpos + src.length ≤ i →
        b'.storage[i]? = b.storage[i]? := by
  have hne : src.length ≠ 0 := fun h0 => hs (List.length_eq_zero_iff.mp h0)
  have hlen := b.grownStorage_length src.length
  have hfits : b.wpos + src.length ≤ (b.grownStorage src.length).length := by omega
  have happend : b.append src = .ok {
      b with
      storage := overwrite (b.grownStorage src.length) b.wpos src
      wpos := b.wpos + src.length } := by
    rw [append, if_neg hne, if_neg (by omega)]
    rfl
  refine ⟨_, happend, rfl, rfl, ?_, ?_, ?_⟩
  · exact (overwrite_length hfits).trans hlen
  · dsimp only
    rw [overwrite_drop (by omega), grownStorage_drop]
  · intro i hi hout
    dsimp only
    rw [overwrite_getElem? hfits hout, grownStorage_getElem? b _ hi]

/-! ### The round trip -/

end WarheadDiscord.ByteBuffer
