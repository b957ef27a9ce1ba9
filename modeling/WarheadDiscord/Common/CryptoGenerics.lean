import WarheadDiscord.Common.SRP6
import WarheadDiscord.Lib.Keystream

/-!
# Sealed messages

`CryptoGenerics.h` with the cipher `AES`, which is `EVP_aes_128_gcm`: a keystream and a tag of the
bytes under it.  Both are arbitrary functions, and the calls of OpenSSL succeed apart from the one
that compares the tags.

* `aeEncrypt`, `aeDecrypt`: the source.
* `splitFromBack_ok`: the loop takes the tail off.
* `aeDecrypt_spec`: **which messages are accepted**, and what is left of one that is not.
-/

namespace WarheadDiscord.Crypto

open Lib

/-! ### The source -/

/-- What `EVP_aes_128_gcm` computes of a key and an initial vector. -/
structure Gcm where
  keystream : Bytes 16 → Bytes 12 → Nat → UInt8
  /-- The tag of the encrypted bytes, cut to the 12 bytes that are asked for. -/
  tag : Bytes 16 → Bytes 12 → List UInt8 → Bytes 12

/-- `AES::Process`: the result, the data and the tag. -/
def aesProcess (g : Gcm) (encrypting : Bool) (key : Bytes 16) (iv : Bytes 12) (data : List UInt8)
    (tag : Bytes 12) : Except Fault (Bool × List UInt8 × Bytes 12) :=
  if data.length ≤ 2 ^ 31 - 1 then
    let out := xorFrom (g.keystream key iv) 0 data
    if encrypting then .ok (true, out, g.tag key iv out)
    else .ok (decide (g.tag key iv data = tag), out, tag)
  else .error (.assertion "length <= static_cast<size_t>(std::numeric_limits<int>::max())")

def appendToBack {n : Nat} (data : List UInt8) (tail : Bytes n) : List UInt8 := data ++ tail.val

/-- The loop of `SplitFromBack`: `i` more bytes go from the back of the data to the front of what
is filled of the tail. -/
def splitLoop : Nat → List UInt8 → List UInt8 → List UInt8 × List UInt8
  | 0, data, tail => (data, tail)
  | i + 1, data, tail => splitLoop i data.dropLast (data.getLastD 0 :: tail)

/-- `SplitFromBack`, for a tail of `n` bytes. -/
def splitFromBack (n : Nat) (data : List UInt8) : Except Fault (List UInt8 × List UInt8) :=
  if n ≤ data.length then .ok (splitLoop n data [])
  else .error (.assertion "data.size() >= std::size(tail)")

theorem splitLoop_eq (i : Nat) (data tail : List UInt8) (h : i ≤ data.length) :
    splitLoop i data tail = (data.take (data.length - i), data.drop (data.length - i) ++ tail) := by
  induction i generalizing data tail with
  | zero => simp [splitLoop]
  | succ i ih =>
    have hne : data ≠ [] := List.ne_nil_of_length_pos (by omega)
    obtain ⟨front, b, rfl⟩ : ∃ front b, data = front ++ [b] :=
      ⟨data.dropLast, data.getLast hne, (List.dropLast_append_getLast hne).symm⟩
    rw [List.length_append, List.length_singleton] at h ⊢
    have hsub : front.length + 1 - (i + 1) = front.length - i := by omega
    rw [splitLoop, List.dropLast_concat, List.getLastD_concat, ih front _ (by omega), hsub,
      List.take_append_of_le_length (by omega), List.drop_append_of_le_length (by omega),
      List.append_assoc]
    rfl

/-- **The loop takes the tail off.** -/
theorem splitFromBack_ok {n : Nat} {data front back : List UInt8} :
    splitFromBack n data = .ok (front, back) ↔ data = front ++ back ∧ back.length = n := by
  rw [splitFromBack]
  constructor
  · intro h
    by_cases hn : n ≤ data.length
    · rw [if_pos hn, splitLoop_eq n data [] hn, List.append_nil] at h
      cases h
      rw [List.take_append_drop, List.length_drop]
      exact ⟨rfl, by omega⟩
    · rw [if_neg hn] at h
      cases h
  · rintro ⟨rfl, hlen⟩
    have hsub : (front ++ back).length - n = front.length := by
      rw [List.length_append]
      omega
    rw [if_pos (by rw [List.length_append]; omega), splitLoop_eq n _ [] (by
      rw [List.length_append]; omega), hsub, List.take_left, List.drop_left, List.append_nil]

/-- `SplitFromBack` into an array. -/
def splitArray (n : Nat) (data : List UInt8) : Except Fault (List UInt8 × Bytes n) :=
  match h : splitFromBack n data with
  | .ok (front, back) => .ok (front, ⟨back, (splitFromBack_ok.mp h).2⟩)
  | .error e => .error e

/-- `AEEncryptWithRandomIV`, with the vector that is drawn and what the tag holds at first. -/
def aeEncrypt (g : Gcm) (iv tag : Bytes 12) (key : Bytes 16) (data : List UInt8) :
    Except Fault (List UInt8) := do
  let (success, data, tag) ← aesProcess g true key iv data tag
  if success then return appendToBack (appendToBack data iv) tag
  else .error (.assertion "success")

/-- `AEDecrypt`: the result, and the data. -/
def aeDecrypt (g : Gcm) (key : Bytes 16) (data : List UInt8) :
    Except Fault (Bool × List UInt8) := do
  let (data, tag) ← splitArray 12 data
  let (data, iv) ← splitArray 12 data
  let (success, data, _) ← aesProcess g false key iv data tag
  return (success, data)

/-! ### Messages -/

theorem splitArray_ok {n : Nat} {data front : List UInt8} {back : Bytes n} :
    splitArray n data = .ok (front, back) ↔ data = front ++ back.val := by
  rw [splitArray]
  split
  · rename_i front' back' h
    obtain ⟨rfl, hlen⟩ := splitFromBack_ok.mp h
    constructor
    · intro he
      cases he
      rfl
    · intro he
      obtain ⟨rfl, hback⟩ := List.append_inj' he (by rw [hlen, back.2])
      subst hback
      rfl
  · rename_i e h
    constructor
    · intro he
      cases he
    · rintro rfl
      rw [splitFromBack_ok.mpr ⟨rfl, back.2⟩] at h
      cases h

section Messages

variable {g : Gcm} {key : Bytes 16} {data plain : List UInt8}

theorem aeEncrypt_ok {iv tag : Bytes 12} : aeEncrypt g iv tag key plain = .ok data ↔
    plain.length ≤ 2 ^ 31 - 1 ∧ data = xorFrom (g.keystream key iv) 0 plain ++ iv.val ++
      (g.tag key iv (xorFrom (g.keystream key iv) 0 plain)).val := by
  rw [aeEncrypt, aesProcess]
  by_cases h : plain.length ≤ 2 ^ 31 - 1
  · rw [if_pos h]
    constructor
    · intro he
      cases he
      exact ⟨h, rfl⟩
    · rintro ⟨-, rfl⟩
      rfl
  · rw [if_neg h]
    constructor
    · intro he
      cases he
    · exact fun he => absurd he.1 h

/-- A message is taken apart into the encrypted bytes, the vector and the tag. -/
theorem aeDecrypt_ok {success : Bool} : aeDecrypt g key data = .ok (success, plain) ↔
    ∃ (body : List UInt8) (iv tag : Bytes 12), data = body ++ iv.val ++ tag.val ∧
      body.length ≤ 2 ^ 31 - 1 ∧ plain = xorFrom (g.keystream key iv) 0 body ∧
      success = decide (g.tag key iv body = tag) := by
  constructor
  · intro h
    obtain ⟨⟨front, tag⟩, h1, h⟩ := bind_ok h
    obtain ⟨⟨body, iv⟩, h2, h⟩ := bind_ok h
    obtain ⟨⟨s, out, t⟩, h3, h⟩ := bind_ok h
    cases h
    rw [splitArray_ok] at h1 h2
    rw [aesProcess] at h3
    by_cases hlen : body.length ≤ 2 ^ 31 - 1
    · rw [if_pos hlen, if_neg (by decide)] at h3
      cases h3
      exact ⟨body, iv, tag, by rw [h1, h2], hlen, rfl, rfl⟩
    · rw [if_neg hlen] at h3
      cases h3
  · rintro ⟨body, iv, tag, rfl, hlen, rfl, rfl⟩
    rw [aeDecrypt, splitArray_ok.mpr rfl, ok_bind]
    dsimp only
    rw [splitArray_ok.mpr rfl, ok_bind]
    dsimp only
    rw [aesProcess, if_pos hlen, if_neg (by decide)]
    rfl

/-- **Which messages are accepted**: those that the encryption makes for some vector, and the data
are then the text of this message.  A message is checked at all if it has room for the vector and
the tag and the rest is not too long.  One that is not accepted is decrypted in place all the
same. -/
theorem aeDecrypt_spec (g : Gcm) (key : Bytes 16) (data : List UInt8) :
    (∀ plain, aeDecrypt g key data = .ok (true, plain) ↔
        ∃ iv tag, aeEncrypt g iv tag key plain = .ok data) ∧
      ((∃ success plain, aeDecrypt g key data = .ok (success, plain)) ↔
        24 ≤ data.length ∧ data.length - 24 ≤ 2 ^ 31 - 1) ∧
      ∀ plain, aeDecrypt g key data = .ok (false, plain) →
        ∃ (body : List UInt8) (iv tag : Bytes 12), data = body ++ iv.val ++ tag.val ∧
          plain = xorFrom (g.keystream key iv) 0 body := by
  refine ⟨fun plain => ?_, ?_, fun plain h => ?_⟩
  · rw [aeDecrypt_ok]
    constructor
    · rintro ⟨body, iv, tag, rfl, hlen, rfl, htag⟩
      have htag := of_decide_eq_true htag.symm
      refine ⟨iv, tag, aeEncrypt_ok.mpr ⟨by rw [xorFrom_length]; exact hlen, ?_⟩⟩
      rw [xorFrom_xorFrom, htag]
    · rintro ⟨iv, tag, h⟩
      obtain ⟨hlen, rfl⟩ := aeEncrypt_ok.mp h
      exact ⟨_, iv, _, rfl, by rw [xorFrom_length]; exact hlen, (xorFrom_xorFrom 0 plain).symm,
        (decide_eq_true rfl).symm⟩
  · constructor
    · rintro ⟨success, plain, h⟩
      obtain ⟨body, iv, tag, rfl, hlen, -, -⟩ := aeDecrypt_ok.mp h
      rw [List.length_append, List.length_append, iv.2, tag.2]
      omega
    · rintro ⟨hlow, hhigh⟩
      have hfront : (data.take (data.length - 12)).length = data.length - 12 :=
        List.length_take_of_le (by omega)
      have hbody : (data.take (data.length - 24)).length = data.length - 24 :=
        List.length_take_of_le (by omega)
      refine ⟨_, _, aeDecrypt_ok.mpr ⟨data.take (data.length - 24),
        ⟨(data.drop (data.length - 24)).take 12, ?_⟩, ⟨data.drop (data.length - 12), ?_⟩, ?_,
        by omega, rfl, rfl⟩⟩
      · rw [List.length_take, List.length_drop]
        omega
      · rw [List.length_drop]
        omega
      · have hsplit : data.drop (data.length - 12) =
            (data.drop (data.length - 24)).drop 12 := by
          rw [List.drop_drop]
          congr 1
          omega
        dsimp only
        rw [hsplit, List.append_assoc, List.take_append_drop, List.take_append_drop]
  · obtain ⟨body, iv, tag, hdata, -, hplain, -⟩ := aeDecrypt_ok.mp h
    exact ⟨body, iv, tag, hdata, hplain⟩

end Messages

end WarheadDiscord.Crypto
