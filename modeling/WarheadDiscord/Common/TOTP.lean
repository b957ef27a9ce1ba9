import WarheadDiscord.Common.SRP6
import WarheadDiscord.Lib.Bits

/-!
# `TOTP`

Tokens of six digits for times.  `HMAC` with `SHA1` is an arbitrary function to 20 bytes.

* `generateToken`, `validateToken`: the source.
* `challenge_toBE`: the loop writes the counter of the interval.
* `generateToken_toNat`: the token is the one of this counter, whatever was on the stack.
* `totp_spec`: **for which times a token is good**.
-/

namespace WarheadDiscord.Crypto.TOTP

open Lib

/-- `HMAC(EVP_sha1(), key, challenge)`. -/
abbrev HMAC := List UInt8 → List UInt8 → Bytes 20

/-! ### The source -/

/-- `TOTP_INTERVAL`. -/
def interval : Int64 := 30

/-- The loop over `challenge`, from its end. -/
def challengeLoop : Nat → Int64 → List UInt8 → List UInt8
  | 0, _, challenge => challenge
  | i + 1, timestamp, challenge =>
    challengeLoop i (timestamp >>> 8) (challenge.set i timestamp.toUInt64.toUInt8)

/-- `digest[i]`, promoted. -/
def digestAt (digest : Bytes 20) (i : Nat) (h : i < 20) : UInt32 :=
  (digest.val.get ⟨i, by rw [digest.2]; exact h⟩).toUInt32

def offset (digest : Bytes 20) : UInt32 := digestAt digest 19 (by decide) &&& 0xF

theorem offset_toNat (digest : Bytes 20) :
    (offset digest).toNat = (digestAt digest 19 (by decide)).toNat % 16 := by
  rw [offset, UInt32.toNat_and]
  exact Nat.and_two_pow_sub_one_eq_mod _ 4

theorem offset_lt (digest : Bytes 20) : (offset digest).toNat + 3 < 20 := by
  have h := offset_toNat digest
  omega

/-- The 31 bits from the offset on. -/
def truncated (digest : Bytes 20) : UInt32 :=
  have h := offset_lt digest
  let o := (offset digest).toNat
  (digestAt digest o (by omega) <<< 24 ||| digestAt digest (o + 1) (by omega) <<< 16 |||
    digestAt digest (o + 2) (by omega) <<< 8 ||| digestAt digest (o + 3) h) &&& 0x7FFFFFFF

/-- `GenerateToken`, with what the array of the challenge holds before it is written. -/
def generateToken (hmac : HMAC) (stack : Bytes 8) (secret : List UInt8) (timestamp : Int64) :
    UInt32 :=
  truncated (hmac secret (challengeLoop 8 (timestamp / interval) stack.val)) % 1000000

/-- `ValidateToken` at the time `now`. -/
def validateToken (hmac : HMAC) (stack : Bytes 8) (secret : List UInt8) (token : UInt32)
    (now : Int64) : Bool :=
  token == generateToken hmac stack secret (now - interval) ||
    token == generateToken hmac stack secret now ||
    token == generateToken hmac stack secret (now + interval)

/-- The token of a counter: 31 bits of the digest of its bytes, from the place that the last byte
names, as a number of six digits. -/
def hotp (hmac : HMAC) (secret : List UInt8) (counter : Nat) : Nat :=
  let digest := (hmac secret (toBE 8 counter)).val
  ofBE ((digest.drop ((digest.getLastD 0).toNat % 16)).take 4) % 2 ^ 31 % 10 ^ 6

/-! ### The counter -/

theorem toInt_shiftRight_eight (t : Int64) : (t >>> 8).toInt = t.toInt / 256 := by
  rw [← Int64.toInt_toBitVec, Int64.toBitVec_shiftRight]
  have hshift : t.toBitVec.sshiftRight' ((8 : Int64).toBitVec.smod 64) = t.toBitVec.sshiftRight 8 :=
    rfl
  rw [hshift, BitVec.toInt_sshiftRight, Int.shiftRight_eq_div_pow]
  rfl

theorem toUInt8_of_nonneg {t : Int64} (h : 0 ≤ t.toInt) :
    t.toUInt64.toUInt8 = UInt8.ofNat t.toInt.toNat := by
  have hle : 0 ≤ t := by
    rw [Int64.le_iff_toInt_le]
    exact h
  have hnat : t.toUInt64.toNat = t.toInt.toNat := Int64.toNat_toUInt64_of_le hle
  apply UInt8.toNat_inj.mp
  rw [UInt64.toNat_toUInt8, hnat, UInt8.toNat_ofNat']

/-- **The loop writes the number**, most significant byte first. -/
theorem challenge_toBE (i : Nat) (t : Int64) (challenge : List UInt8) (h : 0 ≤ t.toInt)
    (hi : i ≤ challenge.length) :
    challengeLoop i t challenge = toBE i t.toInt.toNat ++ challenge.drop i := by
  induction i generalizing t challenge with
  | zero => simp [challengeLoop, toBE, toLE]
  | succ i ih =>
    have hshift := toInt_shiftRight_eight t
    have hdrop : (challenge.set i t.toUInt64.toUInt8).drop i =
        t.toUInt64.toUInt8 :: challenge.drop (i + 1) := by
      rw [List.drop_eq_getElem_cons (by rw [List.length_set]; omega), List.getElem_set_self,
        List.drop_set_of_lt (by omega)]
    rw [challengeLoop, ih (t >>> 8) _ (by omega) (by rw [List.length_set]; omega), hdrop, hshift,
      toUInt8_of_nonneg h, toBE, toBE, toLE, List.reverse_cons, List.append_assoc]
    have hdiv : (t.toInt / 256).toNat = t.toInt.toNat / 256 := by omega
    rw [hdiv]
    rfl

/-! ### The token -/

theorem digestAt_lt (digest : Bytes 20) (i : Nat) (h : i < 20) :
    (digestAt digest i h).toNat < 2 ^ 8 := by
  rw [digestAt, UInt8.toNat_toUInt32]
  exact UInt8.toNat_lt _

theorem toNat_shiftLeft_byte {x : UInt32} (h : x.toNat < 2 ^ 8) (s : UInt32) {i : Nat}
    (hs : s.toNat = i) (hi : i ≤ 24) : (x <<< s).toNat = x.toNat <<< i := by
  have hpow : (2 : Nat) ^ i ≤ 2 ^ 24 := Nat.pow_le_pow_right (by decide) hi
  have hle : x.toNat * 2 ^ i ≤ 255 * 2 ^ 24 := Nat.mul_le_mul (by omega) hpow
  rw [UInt32.toNat_shiftLeft, hs, Nat.mod_eq_of_lt (show i < 32 by omega), Nat.shiftLeft_eq,
    Nat.mod_eq_of_lt (by omega)]

theorem take_drop_digest (digest : Bytes 20) (o : Nat) (h : o + 3 < 20) :
    (digest.val.drop o).take 4 = [(digestAt digest o (by omega)).toUInt8,
      (digestAt digest (o + 1) (by omega)).toUInt8, (digestAt digest (o + 2) (by omega)).toUInt8,
      (digestAt digest (o + 3) h).toUInt8] := by
  have hlen := digest.2
  have hbyte : ∀ (i : Nat) (hi : i < 20), (digestAt digest i hi).toUInt8 =
      digest.val.get ⟨i, by rw [hlen]; exact hi⟩ := by
    intro i hi
    rw [digestAt, UInt8.toUInt8_toUInt32]
  rw [List.drop_eq_getElem_cons (by omega), List.drop_eq_getElem_cons (by omega),
    List.drop_eq_getElem_cons (by omega), List.drop_eq_getElem_cons (by omega), hbyte, hbyte, hbyte,
    hbyte]
  rfl

theorem truncated_toNat (digest : Bytes 20) :
    (truncated digest).toNat =
      ofBE ((digest.val.drop (offset digest).toNat).take 4) % 2 ^ 31 := by
  have ho := offset_lt digest
  have h0 := digestAt_lt digest (offset digest).toNat (by omega)
  have h1 := digestAt_lt digest ((offset digest).toNat + 1) (by omega)
  have h2 := digestAt_lt digest ((offset digest).toNat + 2) (by omega)
  have h3 := digestAt_lt digest ((offset digest).toNat + 3) ho
  rw [take_drop_digest digest _ ho, truncated]
  generalize digestAt digest (offset digest).toNat (by omega) = a at h0 ⊢
  generalize digestAt digest ((offset digest).toNat + 1) (by omega) = b at h1 ⊢
  generalize digestAt digest ((offset digest).toNat + 2) (by omega) = c at h2 ⊢
  generalize digestAt digest ((offset digest).toNat + 3) ho = d at h3 ⊢
  have hsum : (a <<< 24 ||| b <<< 16 ||| c <<< 8 ||| d).toNat =
      2 ^ 8 * (2 ^ 8 * (2 ^ 8 * a.toNat + b.toNat) + c.toNat) + d.toNat := by
    rw [UInt32.toNat_or, UInt32.toNat_or, UInt32.toNat_or,
      toNat_shiftLeft_byte h0 24 (i := 24) rfl (by decide),
      toNat_shiftLeft_byte h1 16 (i := 16) rfl (by decide),
      toNat_shiftLeft_byte h2 8 (i := 8) rfl (by decide), shiftLeft_or_shiftLeft h1 a.toNat 16,
      shiftLeft_or_shiftLeft h2 _ 8, shiftLeft_or h3]
  have hof : ofBE [a.toUInt8, b.toUInt8, c.toUInt8, d.toUInt8] =
      2 ^ 8 * (2 ^ 8 * (2 ^ 8 * a.toNat + b.toNat) + c.toNat) + d.toNat := by
    simp only [ofBE, List.reverse_cons, List.reverse_nil, List.nil_append, List.cons_append, ofLE,
      UInt32.toNat_toUInt8]
    omega
  rw [UInt32.toNat_and, hsum, hof]
  exact Nat.and_two_pow_sub_one_eq_mod _ 31

/-- The quotient is towards zero. -/
theorem toInt_div_interval {t : Int64} (h : -30 < t.toInt) :
    (t / interval).toInt = (t.toInt.toNat / 30 : Nat) := by
  rw [Int64.toInt_div_of_ne_right t interval (by decide), show interval.toInt = 30 from rfl]
  by_cases hpos : 0 ≤ t.toInt
  · rw [Int.tdiv_eq_ediv_of_nonneg hpos]
    omega
  · have hneg : (-t.toInt).tdiv 30 = 0 := by
      rw [Int.tdiv_eq_ediv_of_nonneg (by omega)]
      omega
    rw [Int.neg_tdiv] at hneg
    omega

/-- **The token of a time is the token of the counter of its interval**, whatever the array held.
The interval before the first one counts as the first. -/
theorem generateToken_toNat (hmac : HMAC) (stack : Bytes 8) (secret : List UInt8) {t : Int64}
    (h : -30 < t.toInt) :
    (generateToken hmac stack secret t).toNat = hotp hmac secret (t.toInt.toNat / 30) := by
  have hdiv := toInt_div_interval h
  have hchallenge : challengeLoop 8 (t / interval) stack.val = toBE 8 (t.toInt.toNat / 30) := by
    rw [challenge_toBE 8 _ _ (by rw [hdiv]; omega) (by rw [stack.2]), hdiv, Int.toNat_natCast,
      List.drop_eq_nil_of_le (by rw [stack.2]), List.append_nil]
  rw [generateToken, hchallenge, hotp]
  generalize hmac secret (toBE 8 (t.toInt.toNat / 30)) = digest
  have hlast : (digest.val.getLastD 0).toNat = (digestAt digest 19 (by decide)).toNat := by
    have hlen := digest.2
    have hne : digest.val ≠ [] := List.ne_nil_of_length_pos (by omega)
    rw [List.getLastD_eq_getLast?, List.getLast?_eq_some_getLast hne, Option.getD_some, digestAt,
      UInt8.toNat_toUInt32, List.getLast_eq_getElem]
    simp only [hlen]
    rfl
  rw [UInt32.toNat_mod, truncated_toNat, offset_toNat, hlast]
  rfl

/-! ### The check -/

theorem hotp_lt (hmac : HMAC) (secret : List UInt8) (counter : Nat) :
    hotp hmac secret counter < 10 ^ 6 := Nat.mod_lt _ (by decide)

section Check

variable {hmac : HMAC} {stack : Bytes 8} {secret : List UInt8} {token : UInt32} {now : Int64}

theorem validateToken_iff (h1 : 1 ≤ now.toInt) (h2 : now.toInt + 30 < 2 ^ 63) :
    validateToken hmac stack secret token now = true ↔ ∃ counter,
      now.toInt.toNat / 30 - 1 ≤ counter ∧ counter ≤ now.toInt.toNat / 30 + 1 ∧
        token.toNat = hotp hmac secret counter := by
  have hprev : (now - interval).toInt = now.toInt - 30 := by
    rw [Int64.toInt_sub, show interval.toInt = 30 from rfl]
    exact Int.bmod_eq_of_le (by omega) (by omega)
  have hnext : (now + interval).toInt = now.toInt + 30 := by
    rw [Int64.toInt_add, show interval.toInt = 30 from rfl]
    exact Int.bmod_eq_of_le (by omega) (by omega)
  have heq : ∀ t : Int64, -30 < t.toInt → ((token == generateToken hmac stack secret t) = true ↔
      token.toNat = hotp hmac secret (t.toInt.toNat / 30)) := by
    intro t ht
    rw [beq_iff_eq, ← UInt32.toNat_inj, generateToken_toNat hmac stack secret ht]
  have hprevNat : (now.toInt - 30).toNat / 30 = now.toInt.toNat / 30 - 1 := by omega
  have hnextNat : (now.toInt + 30).toNat / 30 = now.toInt.toNat / 30 + 1 := by omega
  rw [validateToken, Bool.or_eq_true, Bool.or_eq_true, heq _ (by omega), heq _ (by omega),
    heq _ (by omega), hprev, hnext, hprevNat, hnextNat]
  constructor
  · rintro ((h | h) | h)
    · exact ⟨_, Nat.le_refl _, by omega, h⟩
    · exact ⟨_, by omega, by omega, h⟩
    · exact ⟨_, by omega, Nat.le_refl _, h⟩
  · rintro ⟨counter, hlow, hhigh, h⟩
    have hcases : counter = now.toInt.toNat / 30 - 1 ∨ counter = now.toInt.toNat / 30 ∨
        counter = now.toInt.toNat / 30 + 1 := by omega
    rcases hcases with rfl | rfl | rfl
    · exact Or.inl (Or.inl h)
    · exact Or.inl (Or.inr h)
    · exact Or.inr h

/-- **The check**: a token is good if it is the token of this interval or of one beside it.  So
a token that was made at most thirty seconds before or after is good, and a number of more than
six digits is never good. -/
theorem totp_spec (hmac : HMAC) (stack : Bytes 8) (secret : List UInt8) {now : Int64}
    (h1 : 1 ≤ now.toInt) (h2 : now.toInt + 30 < 2 ^ 63) :
    (∀ token, validateToken hmac stack secret token now = true ↔ ∃ counter,
        now.toInt.toNat / 30 - 1 ≤ counter ∧ counter ≤ now.toInt.toNat / 30 + 1 ∧
          token.toNat = hotp hmac secret counter) ∧
      (∀ (t : Int64) (stack' : Bytes 8), 0 ≤ t.toInt → now.toInt - 30 ≤ t.toInt →
        t.toInt ≤ now.toInt + 30 →
        validateToken hmac stack secret (generateToken hmac stack' secret t) now = true) ∧
      ∀ token, 10 ^ 6 ≤ token.toNat → validateToken hmac stack secret token now = false := by
  refine ⟨fun token => validateToken_iff h1 h2, ?_, ?_⟩
  · intro t stack' h0 hlow hhigh
    rw [validateToken_iff h1 h2]
    exact ⟨t.toInt.toNat / 30, by omega, by omega,
      generateToken_toNat hmac stack' secret (by omega)⟩
  · intro token htoken
    rw [← Bool.not_eq_true, validateToken_iff h1 h2]
    rintro ⟨counter, -, -, h⟩
    have hlt := hotp_lt hmac secret counter
    omega

end Check

/-- The digests of the first three counters under one secret. -/
def sampleHmac : HMAC := fun _ challenge =>
  match challenge.getLastD 0 with
  | 0 => ⟨hexBytes "CC93CF18508D94934C64B65D8BA7667FB7CDE4B0".toList, by decide⟩
  | 1 => ⟨hexBytes "75A48A19D4CBE100644E8AC1397EEA747A2D33AB".toList, by decide⟩
  | _ => ⟨hexBytes "0BACB7FA082FEF30782211938BC1C5E70416FF44".toList, by decide⟩

def sampleStack : Bytes 8 := ⟨[1, 2, 3, 4, 5, 6, 7, 8], rfl⟩

def sampleSecret : List UInt8 := "12345678901234567890".toUTF8.data.toList

/-- At second 59 the tokens of the seconds 29 and 89 are good, and the sum of both is not. -/
theorem totp_spec_minute :
    validateToken sampleHmac sampleStack sampleSecret 755224 59 = true ∧
      validateToken sampleHmac sampleStack sampleSecret
        (generateToken sampleHmac sampleStack sampleSecret 89) 59 = true ∧
      validateToken sampleHmac sampleStack sampleSecret 1114376 59 = false := by
  obtain ⟨hiff, hnear, hlong⟩ := totp_spec sampleHmac sampleStack sampleSecret
    (by decide : (1 : Int) ≤ (59 : Int64).toInt) (by decide)
  refine ⟨(hiff 755224).mpr ⟨0, by decide, by decide, by decide⟩, ?_, hlong 1114376 (by decide)⟩
  exact hnear 89 sampleStack (by decide) (by decide) (by decide)

end WarheadDiscord.Crypto.TOTP
