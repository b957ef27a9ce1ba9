import WarheadDiscord.Common.Config
import WarheadDiscord.Common.Fault
import WarheadDiscord.Lib.Blocks
import WarheadDiscord.Lib.ForLoop
import WarheadDiscord.Lib.SizeT

/-!
# Bytes as hexadecimal digits

`ByteArrayToHexStr` and `HexStrToByteArray` of `Util.cpp`.  Both loops have a signed index of
32 bits, and end at one value of it.

* `strtoul_sprintf`: the digits of a byte are read back.
* `byteArrayToHexStr_eq`, `hexStrToByteArray_eq`: what each loop computes.
* `hexStr_spec`: one after the other.
-/

namespace WarheadDiscord.Util

open Lib Config

/-! ### The library -/

def upperDigit (d : Nat) : UInt8 := UInt8.ofNat (if d < 10 then 48 + d else 55 + d)

/-- `sprintf` of a byte by `"%02X"`. -/
def sprintf (byte : UInt8) : Str := [upperDigit (byte.toNat / 16), upperDigit (byte.toNat % 16)]

/-- The value of a hexadecimal digit. -/
def digitValue (c : UInt8) : Option Nat :=
  if 48 ≤ c ∧ c ≤ 57 then some (c.toNat - 48)
  else if 65 ≤ c ∧ c ≤ 70 then some (c.toNat - 55)
  else if 97 ≤ c ∧ c ≤ 102 then some (c.toNat - 87)
  else none

/-- `strtoul` in base sixteen, for a number that is not too large. -/
def strtoul (buffer : Str) : Nat :=
  let text := (buffer.takeWhile (· != 0)).dropWhile isspace
  let (negative, text) :=
    match text with
    | 43 :: text => (false, text)
    | 45 :: text => (true, text)
    | text => (false, text)
  -- A prefix `0x` counts only in front of a digit.
  let text :=
    match text with
    | 48 :: x :: d :: rest =>
      if (x = 120 ∨ x = 88) ∧ (digitValue d).isSome then d :: rest else text
    | text => text
  let value := ((text.map digitValue).takeWhile Option.isSome).reduceOption.foldl
    (fun value d => 16 * value + d) 0
  if negative then wrapSub (2 ^ 64) 0 value else value

/-! ### The loops -/

/-- `i += step`. -/
def addInt32 (step i : Int) : Except Fault Int :=
  if -2 ^ 31 ≤ i + step ∧ i + step < 2 ^ 31 then .ok (i + step)
  else .error (.undefinedBehaviour "i += step")

/-- An access by an index. -/
def readAt (l : List UInt8) (i : Int) : Except Fault UInt8 :=
  if i < 0 then .error (.undefinedBehaviour "index")
  else
    match l[i.toNat]? with
    | some byte => .ok byte
    | none => .error (.undefinedBehaviour "index")

/-- The body of the first loop. -/
def appendHex (bytes : List UInt8) (i : Int) (ss : Str) : Except Fault Str := do
  let byte ← readAt bytes i
  return ss ++ sprintf byte

def byteArrayToHexStr (bytes : List UInt8) (reverse : Bool) : Except Fault Str :=
  let arrayLen := bytes.length
  let init := if reverse then toInt32 (wrapSub (2 ^ 64) arrayLen 1) else 0
  let last := if reverse then -1 else toInt32 arrayLen
  let op := if reverse then -1 else 1
  forLoop .outOfFuel (addInt32 op) (appendHex bytes) last (arrayLen + 1) init []

/-- The body of the second loop, with `j` and `out`. -/
def writeByte (str : Str) (i : Int) (s : Nat × List UInt8) :
    Except Fault (Nat × List UInt8) := do
  let (j, out) := s
  let first ← readAt str i
  let second ← readAt str (← addInt32 1 i)
  let byte := UInt8.ofNat (strtoul [first, second, 0])
  if j < out.length then return (wrapAdd (2 ^ 32) j 1, out.set j byte)
  else .error (.undefinedBehaviour "out[j++]")

/-- `HexStrToByteArray`, with the bytes of `out` before and after. -/
def hexStrToByteArray (str : Str) (out : List UInt8) (reverse : Bool) :
    Except Fault (List UInt8) :=
  let outlen := out.length
  if str.length ≠ wrapMul (2 ^ 64) 2 outlen then
    .error (.assertion "str.size() == (2 * outlen)")
  else
    let init := if reverse then toInt32 (wrapSub (2 ^ 64) str.length 2) else 0
    let last := if reverse then -2 else toInt32 str.length
    let op := if reverse then -1 else 1
    (forLoop .outOfFuel (addInt32 (2 * op)) (writeByte str) last (str.length + 1) init (0, out)).map
      Prod.snd

/-! ### Digits -/

theorem strtoul_digits : ∀ h < 16, ∀ l < 16,
    strtoul [upperDigit h, upperDigit l, 0] = 16 * h + l := by
  decide

theorem length_sprintf (byte : UInt8) : (sprintf byte).length = 2 := rfl

/-- **The digits of a byte are read back.** -/
theorem strtoul_sprintf (byte : UInt8) :
    UInt8.ofNat
      (strtoul [upperDigit (byte.toNat / 16), upperDigit (byte.toNat % 16), 0]) = byte := by
  have hlt := byte.toNat_lt
  rw [strtoul_digits _ (by omega) _ (by omega), Nat.div_add_mod, UInt8.ofNat_toNat]

/-! ### Indices -/

section Indices

variable {reverse : Bool} {l : List UInt8} {n k : Nat} {byte : UInt8}

theorem wrapSub_emod (a b : Nat) (hb : b < 2 ^ 31) :
    ((wrapSub (2 ^ 64) a b : Nat) : Int) % (2 ^ 32 : Nat) = ((a : Int) - b) % (2 ^ 32 : Nat) := by
  rw [wrapSub]
  omega

theorem toInt32_wrapSub {a b : Nat} (ha : a < 2 ^ 31) (hb : b < 2 ^ 31) :
    toInt32 (wrapSub (2 ^ 64) a b) = (a : Int) - b := by
  unfold toInt32
  rw [← Int.emod_bmod, wrapSub_emod a b hb, Int.emod_bmod]
  exact Int.bmod_eq_of_le (by omega) (by omega)

/-- The bytes in the order of the loop. -/
def directed (reverse : Bool) (l : List UInt8) : List UInt8 := if reverse then l.reverse else l

/-- The index of the `k`-th turn. -/
def place (reverse : Bool) (n k : Nat) : Int := if reverse then (n : Int) - 1 - k else k

theorem length_directed (reverse : Bool) (l : List UInt8) :
    (directed reverse l).length = l.length := by
  cases reverse with
  | false => rfl
  | true => exact List.length_reverse

theorem directed_directed (reverse back : Bool) (l : List UInt8) :
    directed back (directed reverse l) = if reverse = back then l else l.reverse := by
  cases reverse <;> cases back
  · rfl
  · rfl
  · rfl
  · exact List.reverse_reverse l

theorem exists_place (h : (directed reverse l)[k]? = some byte) :
    ∃ p : Nat, place reverse l.length k = p ∧ p < l.length ∧ l[p]? = some byte := by
  have hk : k < l.length := by
    have hk := (List.getElem?_eq_some_iff.mp h).1
    rwa [length_directed] at hk
  cases reverse with
  | false => exact ⟨k, rfl, hk, h⟩
  | true =>
    refine ⟨l.length - 1 - k, ?_, by omega, ?_⟩
    · show (l.length : Int) - 1 - k = _
      omega
    · rw [← List.getElem?_reverse hk]
      exact h

@[simp] theorem place_false (n k : Nat) : place false n k = k := rfl

@[simp] theorem place_true (n k : Nat) : place true n k = (n : Int) - 1 - k := rfl

theorem addInt32_place {scale : Int} (hscale : scale = 1 ∨ scale = 2) (hn : n < 2 ^ 30)
    (hk : k < n) :
    addInt32 (scale * if reverse then -1 else 1) (scale * place reverse n k) =
      .ok (scale * place reverse n (k + 1)) := by
  have hnext : scale * place reverse n k + scale * (if reverse then -1 else 1) =
      scale * place reverse n (k + 1) := by
    rw [← Int.mul_add]
    congr 1
    cases reverse with
    | false => simp
    | true =>
      simp only [place_true, if_true]
      omega
  have hrange : -1 ≤ place reverse n (k + 1) ∧ place reverse n (k + 1) < 2 ^ 30 := by
    cases reverse with
    | false =>
      rw [place_false]
      omega
    | true =>
      rw [place_true]
      omega
  rw [addInt32, hnext]
  apply if_pos
  rcases hscale with rfl | rfl
  · omega
  · omega

theorem readAt_of_getElem? {p : Nat} (h : l[p]? = some byte) : readAt l p = .ok byte := by
  rw [readAt, if_neg (by omega), Int.toNat_natCast, h]

theorem place_ne (hk : k < n) : place reverse n k ≠ place reverse n n := by
  cases reverse with
  | false =>
    rw [place_false, place_false]
    omega
  | true =>
    rw [place_true, place_true]
    omega

theorem init_place {scale : Nat} (hscale : scale = 1 ∨ scale = 2) (hn : n < 2 ^ 30) :
    (if reverse then toInt32 (wrapSub (2 ^ 64) (scale * n) scale) else 0) =
      scale * place reverse n 0 := by
  cases reverse with
  | false => rw [if_neg Bool.false_ne_true, place_false, Int.ofNat_zero, Int.mul_zero]
  | true =>
    rcases hscale with rfl | rfl
    · rw [if_pos rfl, toInt32_wrapSub (by omega) (by omega), place_true]
      omega
    · rw [if_pos rfl, toInt32_wrapSub (by omega) (by omega), place_true]
      omega

theorem last_place {scale : Nat} (hscale : scale = 1 ∨ scale = 2) (hn : n < 2 ^ 30) :
    (if reverse then -(scale : Int) else toInt32 (scale * n)) = scale * place reverse n n := by
  cases reverse with
  | false =>
    rcases hscale with rfl | rfl
    · rw [if_neg Bool.false_ne_true, place_false, toInt32_of_lt (by omega), Int.natCast_mul]
    · rw [if_neg Bool.false_ne_true, place_false, toInt32_of_lt (by omega), Int.natCast_mul]
  | true =>
    rcases hscale with rfl | rfl
    · rw [if_pos rfl, place_true]
      omega
    · rw [if_pos rfl, place_true]
      omega

end Indices

/-! ### What the loops compute -/

section Loops

variable {bytes items out : List UInt8} {str : Str} {reverse : Bool} {n k : Nat}

theorem appendHex_spec {byte : UInt8} (h : (directed reverse bytes)[k]? = some byte) (ss : Str) :
    appendHex bytes (place reverse bytes.length k) ss = .ok (ss ++ sprintf byte) := by
  obtain ⟨p, hp, -, hbyte⟩ := exists_place h
  rw [appendHex, hp, readAt_of_getElem? hbyte]
  rfl

/-- **The digits of the bytes**, in the order of the loop. -/
theorem byteArrayToHexStr_eq (hlen : bytes.length < 2 ^ 30) (reverse : Bool) :
    byteArrayToHexStr bytes reverse = .ok ((directed reverse bytes).flatMap sprintf) := by
  have hinit : (if reverse then toInt32 (wrapSub (2 ^ 64) bytes.length 1) else 0) =
      place reverse bytes.length 0 := by
    simpa only [Nat.one_mul, Int.natCast_one, Int.one_mul] using init_place (.inl rfl) hlen
  have hlast : (if reverse then -1 else toInt32 bytes.length) =
      place reverse bytes.length bytes.length := by
    simpa only [Nat.one_mul, Int.natCast_one, Int.one_mul] using last_place (.inl rfl) hlen
  have hloop : ∃ ss, forLoop .outOfFuel (addInt32 (if reverse then -1 else 1)) (appendHex bytes)
      (place reverse bytes.length bytes.length) (bytes.length + 1)
      (place reverse bytes.length 0) [] = .ok ss ∧
        ss = ((directed reverse bytes).take bytes.length).flatMap sprintf := by
    apply forLoop_rule (place reverse bytes.length)
      (fun k ss => ss = ((directed reverse bytes).take k).flatMap sprintf)
      (Nat.lt_succ_self bytes.length) rfl fun k hk => place_ne hk
    · intro k hk
      simpa only [Int.one_mul] using addInt32_place (.inl rfl) hlen hk
    · rintro k hk ss rfl
      have hlt : k < (directed reverse bytes).length := by rwa [length_directed]
      have hget : (directed reverse bytes)[k]? = some ((directed reverse bytes)[k]) :=
        List.getElem?_eq_getElem hlt
      refine ⟨_, appendHex_spec hget _, ?_⟩
      rw [List.take_add_one, hget, Option.toList_some, List.flatMap_append,
        List.flatMap_singleton]
    · rfl
  obtain ⟨ss, hss, hend⟩ := hloop
  rw [List.take_of_length_le (Nat.le_of_eq (length_directed reverse bytes))] at hend
  rw [byteArrayToHexStr, hinit, hlast, hss, hend]

theorem readAt_digits {p : Nat} {byte : UInt8} (h : items[p]? = some byte) :
    readAt (items.flatMap sprintf) (2 * p : Nat) = .ok (upperDigit (byte.toNat / 16)) ∧
      readAt (items.flatMap sprintf) (2 * p + 1 : Nat) =
        .ok (upperDigit (byte.toNat % 16)) := by
  constructor
  · apply readAt_of_getElem?
    rw [Nat.mul_comm 2 p, ← Nat.add_zero (p * 2),
      getElem?_flatMap_of_length length_sprintf items p (by decide), h]
    rfl
  · apply readAt_of_getElem?
    rw [Nat.mul_comm 2 p, getElem?_flatMap_of_length length_sprintf items p (by decide), h]
    rfl

theorem set_written {written : List UInt8} (byte : UInt8) (hk : k < out.length)
    (hwritten : written.length = k) :
    (written ++ out.drop k).set k byte = (written ++ [byte]) ++ out.drop (k + 1) := by
  rw [List.set_append_right k byte (Nat.le_of_eq hwritten), hwritten, Nat.sub_self,
    List.drop_eq_getElem_cons hk, List.set_cons_zero, List.append_assoc, List.singleton_append]

theorem writeByte_spec {byte : UInt8} (hlen : items.length = n) (hn : n < 2 ^ 30) (hk : k < n)
    (h : (directed reverse items)[k]? = some byte) (hout : out.length = n) :
    writeByte (items.flatMap sprintf) (2 * place reverse n k) (k, out) =
      .ok (k + 1, out.set k byte) := by
  obtain ⟨p, hp, hlt, hbyte⟩ := exists_place h
  rw [hlen] at hp hlt
  obtain ⟨hfirst, hsecond⟩ := readAt_digits hbyte
  have hnext : addInt32 1 (2 * p : Nat) = .ok ((2 * p + 1 : Nat) : Int) := by
    rw [addInt32, if_pos (by omega), Int.natCast_add, Int.natCast_one]
  have hindex : (2 : Int) * p = (2 * p : Nat) := by omega
  rw [writeByte, hp, hindex, hfirst, ok_bind, hnext, ok_bind, hsecond, ok_bind]
  dsimp only
  rw [strtoul_sprintf, if_pos (by omega), wrapAdd_of_lt (by omega)]
  rfl

/-- **The bytes of the digits**, in the order of the loop. -/
theorem hexStrToByteArray_eq (hout : out.length = items.length) (hlen : items.length < 2 ^ 30)
    (reverse : Bool) :
    hexStrToByteArray (items.flatMap sprintf) out reverse = .ok (directed reverse items) := by
  have hstr : (items.flatMap sprintf).length = 2 * items.length := by
    rw [length_flatMap_of_length length_sprintf, Nat.mul_comm]
  have hinit : (if reverse then toInt32 (wrapSub (2 ^ 64) (2 * items.length) 2) else 0) =
      2 * place reverse items.length 0 := init_place (.inr rfl) hlen
  have hlast : (if reverse then -2 else toInt32 (2 * items.length)) =
      2 * place reverse items.length items.length := last_place (.inr rfl) hlen
  have hloop : ∃ s, forLoop .outOfFuel (addInt32 (2 * if reverse then -1 else 1))
      (writeByte (items.flatMap sprintf)) (2 * place reverse items.length items.length)
      (2 * items.length + 1) (2 * place reverse items.length 0) (0, out) = .ok s ∧
        s = (items.length, (directed reverse items).take items.length ++
          out.drop items.length) := by
    apply forLoop_rule (fun k => 2 * place reverse items.length k)
      (fun k s => s = (k, (directed reverse items).take k ++ out.drop k)) (by omega) rfl
    · intro k hk heq
      have hne : place reverse items.length k ≠ place reverse items.length items.length :=
        place_ne hk
      omega
    · exact fun k hk => addInt32_place (.inr rfl) hlen hk
    · rintro k hk s rfl
      have hlt : k < (directed reverse items).length := by rwa [length_directed]
      have hget : (directed reverse items)[k]? = some ((directed reverse items)[k]) :=
        List.getElem?_eq_getElem hlt
      have htake : ((directed reverse items).take k).length = k :=
        List.length_take_of_le (Nat.le_of_lt hlt)
      refine ⟨_, writeByte_spec rfl hlen hk hget ?_, ?_⟩
      · rw [List.length_append, htake, List.length_drop]
        omega
      · rw [set_written _ (by omega) htake, List.take_add_one, hget, Option.toList_some]
    · rfl
  obtain ⟨s, hs, hend⟩ := hloop
  rw [List.take_of_length_le (Nat.le_of_eq (length_directed reverse items)), ← hout,
    List.drop_length, List.append_nil] at hend
  rw [hexStrToByteArray, hstr, hout, wrapMul_of_lt (by omega), if_neg (not_not_intro rfl), hinit,
    hlast]
  dsimp only
  rw [hs, hend]
  rfl

/-- **Bytes and their digits.** -/
theorem hexStr_spec (bytes : List UInt8) (hlen : bytes.length < 2 ^ 30) (reverse back : Bool)
    (out : List UInt8) (hout : out.length = bytes.length) :
    ∃ str, byteArrayToHexStr bytes reverse = .ok str ∧ str.length = 2 * bytes.length ∧
      hexStrToByteArray str out back =
        .ok (if reverse = back then bytes else bytes.reverse) := by
  have hlength := length_directed reverse bytes
  refine ⟨_, byteArrayToHexStr_eq hlen reverse, ?_, ?_⟩
  · rw [length_flatMap_of_length length_sprintf, hlength, Nat.mul_comm]
  · rw [hexStrToByteArray_eq (hout.trans hlength.symm) (hlength.symm ▸ hlen), directed_directed]

theorem hexStr_spec_small :
    ∃ str, byteArrayToHexStr [0, 171, 255] true = .ok str ∧
      str.length = 2 * [(0 : UInt8), 171, 255].length ∧
      hexStrToByteArray str [1, 2, 3] false =
        .ok (if true = false then [0, 171, 255] else [(0 : UInt8), 171, 255].reverse) :=
  hexStr_spec [0, 171, 255] (by decide) true false [1, 2, 3] rfl

end Loops

end WarheadDiscord.Util
