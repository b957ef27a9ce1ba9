import WarheadDiscord.Common.SRP6
import WarheadDiscord.Lib.SizeT

/-!
# `BigNumber` and its bytes

`SetBinary`, `GetBytes` and `ToByteVector` of `BigNumber.cpp`, for OpenSSL from 1.1 on.  OpenSSL
itself is a parameter, with what its manual says of the functions.

* `OpenSSL`, `OpenSSL.Documented`: the functions, and the manual.
* `getBytes_eq_toByteArray`: the array of a fixed size.
* `toByteVector_iff`: when the bytes are those of the number.
-/

namespace WarheadDiscord.Crypto

open Lib

/-- A non-negative `BIGNUM`, whose size is an `int`. -/
abbrev Bignum := { n : Nat // numBytes n < 2 ^ 31 }

/-- The functions `BN_num_bytes`, `BN_bn2binpad` and so on.  Those that write have the buffer
before, and give the result and the buffer after. -/
structure OpenSSL where
  bnNumBytes : Bignum → Int
  bn2binpad : Bignum → List UInt8 → Int → Int × List UInt8
  bn2lebinpad : Bignum → List UInt8 → Int → Int × List UInt8
  bin2bn : List UInt8 → Int → Bignum
  lebin2bn : List UInt8 → Int → Bignum

/-- What the manual says. -/
structure OpenSSL.Documented (ssl : OpenSSL) : Prop where
  bnNumBytes_eq : ∀ bn, ssl.bnNumBytes bn = numBytes bn.val
  bn2binpad_eq : ∀ bn (buf : List UInt8), numBytes bn.val ≤ buf.length →
    ssl.bn2binpad bn buf buf.length = ((buf.length : Int), toBE buf.length bn.val)
  bn2lebinpad_eq : ∀ bn (buf : List UInt8), numBytes bn.val ≤ buf.length →
    ssl.bn2lebinpad bn buf buf.length = ((buf.length : Int), toLE buf.length bn.val)
  bn2binpad_small : ∀ bn (buf : List UInt8), buf.length < numBytes bn.val →
    (ssl.bn2binpad bn buf buf.length).1 = -1
  bn2lebinpad_small : ∀ bn (buf : List UInt8), buf.length < numBytes bn.val →
    (ssl.bn2lebinpad bn buf buf.length).1 = -1
  bin2bn_eq : ∀ s : List UInt8, s.length < 2 ^ 31 → (ssl.bin2bn s s.length).val = ofBE s
  lebin2bn_eq : ∀ s : List UInt8, s.length < 2 ^ 31 → (ssl.lebin2bn s s.length).val = ofLE s

/-! ### The functions -/

/-- The conversion of an `int` to `size_t`. -/
def toSizeT (i : Int) : Nat := (i % 2 ^ 64).toNat

section Functions

variable (ssl : OpenSSL)

/-- `BigNumber::GetNumBytes`. -/
def getNumBytes (bn : Bignum) : Int := ssl.bnNumBytes bn

/-- `BigNumber::GetBytes`. -/
def getBytes (bn : Bignum) (buf : List UInt8) (littleEndian : Bool) :
    Except Fault (List UInt8) :=
  let bufsize := buf.length
  let (res, buf) :=
    if littleEndian then ssl.bn2lebinpad bn buf (toInt32 bufsize)
    else ssl.bn2binpad bn buf (toInt32 bufsize)
  if res > 0 then .ok buf else .error (.assertion "res > 0")

/-- `BigNumber::ToByteVector`. -/
def toByteVector (bn : Bignum) (minSize : Int32) (littleEndian : Bool) :
    Except Fault (List UInt8) :=
  let length := toSizeT (max (getNumBytes ssl bn) minSize.toInt)
  let v := List.replicate length 0
  getBytes ssl bn v littleEndian

/-- `BigNumber::SetBinary` of a container. -/
def setBinary (bytes : List UInt8) (littleEndian : Bool) : Bignum :=
  let len := toInt32 bytes.length
  if littleEndian then ssl.lebin2bn bytes len else ssl.bin2bn bytes len

end Functions

/-! ### Bytes of a number -/

section Bytes

variable {ssl : OpenSSL} {bn : Bignum} {buf : List UInt8} {littleEndian : Bool}

theorem toSizeT_of_lt {n : Nat} (h : n < 2 ^ 31) : toSizeT n = n := by
  unfold toSizeT
  omega

/-- The bytes of a number, in the order of the flag. -/
def bytesOf (littleEndian : Bool) (w n : Nat) : List UInt8 :=
  if littleEndian then toLE w n else toBE w n

theorem length_bytesOf (littleEndian : Bool) (w n : Nat) :
    (bytesOf littleEndian w n).length = w := by
  cases littleEndian with
  | false => exact toBE_length w n
  | true => exact toLE_length w n

/-- **A number that fits, in a buffer that is not empty.**  The result of the library is the size
of the buffer. -/
theorem getBytes_of_le (hssl : ssl.Documented) (hfits : numBytes bn.val ≤ buf.length)
    (hbuf : buf.length < 2 ^ 31) (littleEndian : Bool) :
    getBytes ssl bn buf littleEndian =
      if buf.length = 0 then .error (.assertion "res > 0")
      else .ok (bytesOf littleEndian buf.length bn.val) := by
  have hres : (if littleEndian then ssl.bn2lebinpad bn buf (toInt32 buf.length)
      else ssl.bn2binpad bn buf (toInt32 buf.length)) =
        ((buf.length : Int), bytesOf littleEndian buf.length bn.val) := by
    rw [toInt32_of_lt hbuf]
    cases littleEndian with
    | false => exact hssl.bn2binpad_eq bn buf hfits
    | true => exact hssl.bn2lebinpad_eq bn buf hfits
  rw [getBytes]
  dsimp only
  rw [hres]
  dsimp only
  by_cases hzero : buf.length = 0
  · rw [if_pos hzero, if_neg (by omega)]
  · rw [if_neg hzero, if_pos (by omega)]

theorem getBytes_of_lt (hssl : ssl.Documented) (hsmall : buf.length < numBytes bn.val)
    (littleEndian : Bool) :
    getBytes ssl bn buf littleEndian = .error (.assertion "res > 0") := by
  have hbuf : buf.length < 2 ^ 31 := Nat.lt_trans hsmall bn.property
  have hres : (if littleEndian then ssl.bn2lebinpad bn buf (toInt32 buf.length)
      else ssl.bn2binpad bn buf (toInt32 buf.length)).1 = -1 := by
    rw [toInt32_of_lt hbuf]
    cases littleEndian with
    | false => exact hssl.bn2binpad_small bn buf hsmall
    | true => exact hssl.bn2lebinpad_small bn buf hsmall
  rw [getBytes]
  dsimp only
  rw [hres]
  rfl

/-- **The array of a fixed size**, which is never empty. -/
theorem getBytes_eq_toByteArray (hssl : ssl.Documented) (hpos : 0 < buf.length)
    (hbuf : buf.length < 2 ^ 31) :
    getBytes ssl bn buf true = (toByteArray buf.length bn.val).map Subtype.val := by
  rw [toByteArray]
  by_cases hfits : bn.val < 256 ^ buf.length
  · rw [getBytes_of_le hssl (numBytes_le.mpr hfits) hbuf, if_neg (Nat.ne_of_gt hpos),
      if_pos hfits]
    rfl
  · rw [getBytes_of_lt hssl (Nat.lt_of_not_le fun h => hfits (numBytes_le.mp h)), if_neg hfits]
    rfl

theorem setBinary_bytesOf (hssl : ssl.Documented) {w : Nat} (hw : w < 2 ^ 31)
    (hfits : numBytes bn.val ≤ w) (littleEndian : Bool) :
    setBinary ssl (bytesOf littleEndian w bn.val) littleEndian = bn := by
  have hlt := numBytes_le.mp hfits
  have hlength := length_bytesOf littleEndian w bn.val
  rw [setBinary, hlength, toInt32_of_lt hw]
  apply Subtype.ext
  cases littleEndian with
  | false =>
    have hread := hssl.bin2bn_eq (toBE w bn.val) (by rwa [toBE_length])
    rw [toBE_length, ofBE_toBE hlt] at hread
    exact hread
  | true =>
    have hread := hssl.lebin2bn_eq (toLE w bn.val) (by rwa [toLE_length])
    rw [toLE_length, ofLE_toLE hlt] at hread
    exact hread

/-- The length that `ToByteVector` asks for. -/
theorem toSizeT_max (hssl : ssl.Documented) (bn : Bignum) {minSize : Int32} (hmin : 0 ≤ minSize) :
    toSizeT (max (getNumBytes ssl bn) minSize.toInt) =
      max (numBytes bn.val) minSize.toInt.toNat ∧
        max (numBytes bn.val) minSize.toInt.toNat < 2 ^ 31 := by
  have hbn := bn.property
  have hpos : 0 ≤ minSize.toInt := Int32.le_iff_toInt_le.mp hmin
  have hlt : minSize.toInt < 2 ^ 31 := minSize.toInt_lt
  have hmax : max (getNumBytes ssl bn) minSize.toInt =
      ((max (numBytes bn.val) minSize.toInt.toNat : Nat) : Int) := by
    rw [getNumBytes, hssl.bnNumBytes_eq]
    omega
  have hbound : max (numBytes bn.val) minSize.toInt.toNat < 2 ^ 31 := by omega
  exact ⟨by rw [hmax, toSizeT_of_lt hbound], hbound⟩

theorem toByteVector_eq (hssl : ssl.Documented) (bn : Bignum) {minSize : Int32}
    (hmin : 0 ≤ minSize) (littleEndian : Bool) {w : Nat}
    (hw : max (numBytes bn.val) minSize.toInt.toNat = w) :
    toByteVector ssl bn minSize littleEndian =
      if w = 0 then .error (.assertion "res > 0")
      else .ok (bytesOf littleEndian w bn.val) := by
  obtain ⟨hlength, hbound⟩ := toSizeT_max hssl bn hmin
  have hfits := Nat.le_max_left (numBytes bn.val) minSize.toInt.toNat
  rw [hw] at hlength hbound hfits
  have hv : (List.replicate w (0 : UInt8)).length = w := List.length_replicate
  rw [toByteVector, hlength, getBytes_of_le hssl (by rwa [hv]) (by rwa [hv]), hv]

/-- **When `ToByteVector` and `SetBinary` restore a number.** -/
theorem toByteVector_iff (hssl : ssl.Documented) (bn : Bignum) {minSize : Int32}
    (hmin : 0 ≤ minSize) (littleEndian : Bool) :
    (∃ v, toByteVector ssl bn minSize littleEndian = .ok v ∧
        v.length = max (numBytes bn.val) minSize.toInt.toNat ∧
        setBinary ssl v littleEndian = bn) ↔
      ¬ (bn.val = 0 ∧ minSize = 0) := by
  have hzero : max (numBytes bn.val) minSize.toInt.toNat = 0 ↔ bn.val = 0 ∧ minSize = 0 := by
    have hpos : 0 ≤ minSize.toInt := Int32.le_iff_toInt_le.mp hmin
    rw [Nat.max_eq_zero_iff, numBytes_eq_zero, ← Int32.toInt_inj, Int32.toInt_zero]
    omega
  rw [toByteVector_eq hssl bn hmin littleEndian rfl, ← hzero]
  by_cases h : max (numBytes bn.val) minSize.toInt.toNat = 0
  · rw [if_pos h]
    refine iff_of_false ?_ (not_not_intro h)
    rintro ⟨v, hv, -⟩
    cases hv
  · rw [if_neg h]
    exact iff_of_true ⟨_, rfl, length_bytesOf littleEndian _ bn.val,
      setBinary_bytesOf hssl (toSizeT_max hssl bn hmin).2 (Nat.le_max_left _ _) littleEndian⟩ h

end Bytes

/-! ### A library by the manual -/

def held (n : Nat) : Bignum :=
  if h : numBytes n < 2 ^ 31 then ⟨n, h⟩
  else ⟨0, by rw [numBytes_eq_zero.mpr rfl]; decide⟩

theorem held_val {n w : Nat} (hn : n < 256 ^ w) (hw : w < 2 ^ 31) : (held n).val = n := by
  rw [held, dif_pos (Nat.lt_of_le_of_lt (numBytes_le.mpr hn) hw)]

/-- The functions as the manual has them. -/
def manual : OpenSSL where
  bnNumBytes bn := numBytes bn.val
  bn2binpad bn buf tolen :=
    if numBytes bn.val ≤ tolen.toNat then (tolen, toBE tolen.toNat bn.val) else (-1, buf)
  bn2lebinpad bn buf tolen :=
    if numBytes bn.val ≤ tolen.toNat then (tolen, toLE tolen.toNat bn.val) else (-1, buf)
  bin2bn s len := held (ofBE (s.take len.toNat))
  lebin2bn s len := held (ofLE (s.take len.toNat))

theorem manual_documented : manual.Documented where
  bnNumBytes_eq _ := rfl
  bn2binpad_eq bn buf h := if_pos h
  bn2lebinpad_eq bn buf h := if_pos h
  bn2binpad_small bn buf h := congrArg Prod.fst (if_neg (Nat.not_le_of_lt h))
  bn2lebinpad_small bn buf h := congrArg Prod.fst (if_neg (Nat.not_le_of_lt h))
  bin2bn_eq s h := by
    show (held (ofBE (s.take s.length))).val = ofBE s
    rw [List.take_length]
    exact held_val (ofBE_lt s) h
  lebin2bn_eq s h := by
    show (held (ofLE (s.take s.length))).val = ofLE s
    rw [List.take_length]
    exact held_val (ofLE_lt s) h

theorem toByteVector_iff_padded :
    (∃ v, toByteVector manual (held 300) 4 false = .ok v ∧
        v.length = max (numBytes (held 300).val) (Int32.toInt 4).toNat ∧
        setBinary manual v false = held 300) ↔
      ¬ ((held 300).val = 0 ∧ (4 : Int32) = 0) :=
  toByteVector_iff manual_documented (held 300) (by decide) false

/-- The vector of the number zero is empty, and the check takes its size for a failure. -/
theorem toByteVector_zero : manual.Documented ∧ (held 0).val = 0 ∧
    ∀ littleEndian,
      toByteVector manual (held 0) 0 littleEndian = .error (.assertion "res > 0") := by
  have hzero : (held 0).val = 0 := held_val (w := 0) (by decide) (by decide)
  refine ⟨manual_documented, hzero, fun littleEndian => ?_⟩
  have hw : max (numBytes (held 0).val) (Int32.toInt 0).toNat = 0 := by
    rw [hzero, numBytes_eq_zero.mpr rfl]
    rfl
  rw [toByteVector_eq manual_documented (held 0) (by decide) littleEndian hw, if_pos rfl]

end WarheadDiscord.Crypto
