import Mathlib.Data.Int.ModEq
import Mathlib.Tactic.Ring
import WarheadDiscord.Common.Fault
import WarheadDiscord.Lib.Endian
import WarheadDiscord.Lib.Outcome

/-!
# `SRP6`

The server's side of the password protocol: `BigNumber` is a natural number with exact
arithmetic, `SHA1` an arbitrary function to 20 bytes.  `Client` is the other side, which is
not in the repository: what an honest client does with the server's numbers.

* `calculateVerifier`, `_B`, `SRP6.sessionSecret`, `SRP6.verifyChallengeResponse`: the source.
* `secret_agrees`: both sides find the same number.
* `agreement`: **so an honest client is accepted, and both have the same session key**.
-/

namespace WarheadDiscord.Crypto

open Lib

/-- `std::array<uint8, n>`. -/
abbrev Bytes (n : Nat) := { bs : List UInt8 // bs.length = n }

/-- `SHA1::GetDigestOf` of the pieces, one after another. -/
abbrev SHA1 := List UInt8 → Bytes 20

/-! ### `BigNumber` -/

/-- `BigNumber(array)`: the bytes are little-endian. -/
def toBigNumber {n : Nat} (bs : Bytes n) : Nat := ofLE bs.val

/-- `BigNumber::ModExp`. -/
def modExp (bn bn1 bn2 : Nat) : Nat := bn ^ bn1 % bn2

/-- `BigNumber::ToByteArray<size>`. -/
def toByteArray (size : Nat) (bn : Nat) : Except Fault (Bytes size) :=
  if bn < 256 ^ size then .ok ⟨toLE size bn, toLE_length size bn⟩
  else .error (.assertion "res > 0")

/-! ### Constants -/

def hexDigit (c : Char) : Nat :=
  if c ≤ '9' then c.toNat - '0'.toNat else c.toNat - 'A'.toNat + 10

/-- The bytes of a hexadecimal number, the first two digits first. -/
def hexBytes : List Char → List UInt8
  | a :: b :: cs => UInt8.ofNat (16 * hexDigit a + hexDigit b) :: hexBytes cs
  | _ => []

/-- `SRP6::g`. -/
def g : Bytes 1 := ⟨[7], rfl⟩

/-- `SRP6::N`, whose bytes are reversed. -/
def N : Bytes 32 :=
  ⟨(hexBytes "894B645E89E1535BBDAD5B8B290650530801B18EBFBF5E8FAB3C82872A3E9BB7".toList).reverse,
    by decide⟩

/-- `SRP6::_g`. -/
def _g : Nat := toBigNumber g

/-- `SRP6::_N`. -/
def _N : Nat := toBigNumber N

example : _N = 0x894B645E89E1535BBDAD5B8B290650530801B18EBFBF5E8FAB3C82872A3E9BB7 := by
  decide

/-! ### The server -/

section Server

variable (sha1 : SHA1)

/-- The exponent of the verifier. -/
def passwordHash (username password : List UInt8) (salt : Bytes 32) : Nat :=
  toBigNumber (sha1 (salt.val ++ (sha1 (username ++ 58 :: password)).val))

/-- `SRP6::CalculateVerifier`. -/
def calculateVerifier (username password : List UInt8) (salt : Bytes 32) :
    Except Fault (Bytes 32) :=
  toByteArray 32 (modExp _g (passwordHash sha1 username password salt) _N)

/-- The bytes at even positions. -/
def evens : List UInt8 → List UInt8
  | a :: _ :: l => a :: evens l
  | _ => []

/-- The bytes at odd positions. -/
def odds : List UInt8 → List UInt8
  | _ :: b :: l => b :: odds l
  | _ => []

def interleave : List UInt8 → List UInt8 → List UInt8
  | a :: as, b :: bs => a :: b :: interleave as bs
  | _, _ => []

theorem interleave_length : ∀ as bs : List UInt8, as.length = bs.length →
    (interleave as bs).length = 2 * as.length
  | [], [], _ => rfl
  | [], _ :: _, h => by cases h
  | _ :: _, [], h => by cases h
  | a :: as, b :: bs, h => by
    have ih := interleave_length as bs (Nat.succ.inj h)
    simp only [interleave, List.length_cons, ih]
    omega

/-- `SRP6::SHA1Interleave`. -/
def sha1Interleave (S : Bytes 32) : Bytes 40 :=
  -- The position of the first byte that is not zero, and one more if it is odd.
  let p := (S.val.takeWhile (· == 0)).length
  let p := (if p % 2 = 1 then p + 1 else p) / 2
  let hash0 := sha1 ((evens S.val).drop p)
  let hash1 := sha1 ((odds S.val).drop p)
  ⟨interleave hash0.val hash1.val, by
    rw [interleave_length _ _ (hash0.property.trans hash1.property.symm), hash0.property]⟩

/-- `SRP6::_B`. -/
def _B (b v : Nat) : Except Fault (Bytes 32) := toByteArray 32 ((modExp _g b _N + v * 3) % _N)

/-- The members of the class. -/
structure SRP6 where
  used : Bool := false
  I : Bytes 20
  b : Nat
  v : Nat
  s : Bytes 32
  B : Bytes 32
  deriving DecidableEq

/-- The constructor, with the random bytes that it draws. -/
def new (username : List UInt8) (salt verifier random : Bytes 32) : Except Fault SRP6 := do
  let B ← _B (toBigNumber random) (toBigNumber verifier)
  .ok {
    I := sha1 username
    b := toBigNumber random
    v := toBigNumber verifier
    s := salt
    B := B }

/-- The scrambling number of the two public keys. -/
def scramble (A B : Bytes 32) : Nat := toBigNumber (sha1 (A.val ++ B.val))

/-- The `S` of `VerifyChallengeResponse`. -/
def SRP6.sessionSecret (srp : SRP6) (A : Bytes 32) : Except Fault (Bytes 32) :=
  toByteArray 32
    (modExp (toBigNumber A * modExp srp.v (scramble sha1 A srp.B) _N) srp.b (toBigNumber N))

/-- The `NgHash` of `VerifyChallengeResponse`. -/
def ngHash : List UInt8 := List.zipWith (· ^^^ ·) (sha1 N.val).val (sha1 g.val).val

/-- The `ourM` of `VerifyChallengeResponse`. -/
def proof (I : Bytes 20) (s A B : Bytes 32) (K : Bytes 40) : Bytes 20 :=
  sha1 (ngHash sha1 ++ I.val ++ s.val ++ A.val ++ B.val ++ K.val)

def SRP6.verifyChallengeResponse (srp : SRP6) (A : Bytes 32) (clientM : Bytes 20) :
    Except Fault (Option (Bytes 40) × SRP6) :=
  if srp.used then .error (.assertion "!_used")
  else
    let srp := { srp with used := true }
    if toBigNumber A % _N = 0 then .ok (none, srp)
    else do
      let S ← srp.sessionSecret sha1 A
      let K := sha1Interleave sha1 S
      let ourM := proof sha1 srp.I srp.s A srp.B K
      if ourM = clientM then .ok (some K, srp) else .ok (none, srp)

end Server

/-! ### The honest client -/

namespace Client

/-- The public key. -/
def publicKey (a : Nat) : Except Fault (Bytes 32) := toByteArray 32 (modExp _g a _N)

/-- The secret, from the server's public key. -/
def secret (a u x : Nat) (B : Bytes 32) : Int :=
  ((toBigNumber B : Int) - 3 * (_g : Int) ^ x) ^ (a + u * x) % _N

/-- The session key. -/
def sessionKey (sha1 : SHA1) (S : Int) : Except Fault (Bytes 40) := do
  let S ← toByteArray 32 S.toNat
  .ok (sha1Interleave sha1 S)

end Client

/-! ### Both sides agree -/

theorem _N_pos : 0 < _N := by decide

theorem _N_le : _N ≤ 256 ^ 32 := by
  have h := ofLE_lt N.val
  rw [N.property] at h
  exact Nat.le_of_lt h

/-- **A number that is reduced fits the array.** -/
theorem toByteArray_of_lt {bn : Nat} (h : bn < _N) :
    ∃ bs, toByteArray 32 bn = .ok bs ∧ toBigNumber bs = bn := by
  have hfits : bn < 256 ^ 32 := Nat.lt_of_lt_of_le h _N_le
  refine ⟨_, if_pos hfits, ?_⟩
  exact ofLE_toLE hfits

theorem modExp_lt (bn bn1 : Nat) : modExp bn bn1 _N < _N := Nat.mod_lt _ _N_pos

theorem modExp_modEq (bn bn1 : Nat) : (modExp bn bn1 _N : Int) ≡ (bn : Int) ^ bn1 [ZMOD _N] := by
  rw [modExp, Int.natCast_mod, Int.natCast_pow]
  exact Int.mod_modEq _ _

/-- The server's public key without the verifier is the power of its secret. -/
theorem modEq_sub_verifier {b v x : Nat} {B : Bytes 32} (hv : v = modExp _g x _N)
    (hB : toBigNumber B = (modExp _g b _N + v * 3) % _N) :
    (toBigNumber B : Int) - 3 * (_g : Int) ^ x ≡ (_g : Int) ^ b [ZMOD _N] := by
  have hB' : (toBigNumber B : Int) ≡ (_g : Int) ^ b + (_g : Int) ^ x * 3 [ZMOD _N] := by
    rw [hB, hv, Int.natCast_mod, Int.natCast_add, Int.natCast_mul]
    refine (Int.mod_modEq _ _).trans ?_
    exact (modExp_modEq _g b).add ((modExp_modEq _g x).mul_right 3)
  have hsub := hB'.sub_right (3 * (_g : Int) ^ x)
  have hcancel : (_g : Int) ^ b + (_g : Int) ^ x * 3 - 3 * (_g : Int) ^ x = (_g : Int) ^ b := by
    ring
  rw [hcancel] at hsub
  exact hsub

/-- **Both sides find the same secret.** -/
theorem secret_agrees {a b u v x : Nat} {B : Bytes 32} (hv : v = modExp _g x _N)
    (hB : toBigNumber B = (modExp _g b _N + v * 3) % _N) :
    (modExp (modExp _g a _N * modExp v u _N) b _N : Int) = Client.secret a u x B := by
  have hserver : (modExp (modExp _g a _N * modExp v u _N) b _N : Int) ≡
      ((_g : Int) ^ a * ((_g : Int) ^ x) ^ u) ^ b [ZMOD _N] := by
    refine (modExp_modEq _ _).trans (Int.ModEq.pow b ?_)
    rw [Int.natCast_mul]
    refine (modExp_modEq _g a).mul ((modExp_modEq v u).trans (Int.ModEq.pow u ?_))
    rw [hv]
    exact modExp_modEq _g x
  have hclient : ((toBigNumber B : Int) - 3 * (_g : Int) ^ x) ^ (a + u * x) ≡
      ((_g : Int) ^ b) ^ (a + u * x) [ZMOD _N] := (modEq_sub_verifier hv hB).pow _
  have hpow : ((_g : Int) ^ a * ((_g : Int) ^ x) ^ u) ^ b = ((_g : Int) ^ b) ^ (a + u * x) := by
    ring
  have hboth := (hserver.trans (hpow ▸ hclient.symm)).eq
  rw [Client.secret, ← hboth]
  refine (Int.emod_eq_of_lt (Int.natCast_nonneg _) ?_).symm
  exact Int.ofNat_lt.mpr (modExp_lt _ _)

theorem sessionKey_of_bytes (sha1 : SHA1) {S : Bytes 32} {secret : Int}
    (hS : (toBigNumber S : Int) = secret) :
    Client.sessionKey sha1 secret = .ok (sha1Interleave sha1 S) := by
  have hnat : secret.toNat = ofLE S.val := by
    rw [← hS, Int.toNat_natCast]
    rfl
  have hfits : ofLE S.val < 256 ^ 32 := by
    have h := ofLE_lt S.val
    rw [S.property] at h
    exact h
  have hback : toLE 32 (ofLE S.val) = S.val := by
    have h := toLE_ofLE S.val
    rw [S.property] at h
    exact h
  rw [Client.sessionKey, toByteArray, if_pos (by rw [hnat]; exact hfits)]
  show Except.ok (sha1Interleave sha1 ⟨toLE 32 secret.toNat, _⟩) = _
  congr 2
  apply Subtype.ext
  rw [hnat]
  exact hback

/-- **An honest client is accepted, and both sides have the same session key.** -/
theorem agreement (sha1 : SHA1) (username password : List UInt8) (salt random : Bytes 32) (a : Nat)
    (hA : ¬ _N ∣ modExp _g a _N) :
    ∃ verifier srp A S K,
      calculateVerifier sha1 username password salt = .ok verifier ∧
        new sha1 username salt verifier random = .ok srp ∧
        Client.publicKey a = .ok A ∧
        srp.sessionSecret sha1 A = .ok S ∧
        (toBigNumber S : Int) = Client.secret a (scramble sha1 A srp.B)
          (passwordHash sha1 username password salt) srp.B ∧
        Client.sessionKey sha1 (Client.secret a (scramble sha1 A srp.B)
          (passwordHash sha1 username password salt) srp.B) = .ok K ∧
        srp.verifyChallengeResponse sha1 A (proof sha1 (sha1 username) salt A srp.B K) =
          .ok (some K, { srp with used := true }) := by
  obtain ⟨verifier, hverifier, hv⟩ :=
    toByteArray_of_lt (modExp_lt _g (passwordHash sha1 username password salt))
  obtain ⟨B, hBok, hB⟩ := toByteArray_of_lt
    (Nat.mod_lt (modExp _g (toBigNumber random) _N + toBigNumber verifier * 3) _N_pos)
  obtain ⟨A, hAok, hAval⟩ := toByteArray_of_lt (modExp_lt _g a)
  obtain ⟨S, hSok, hS⟩ := toByteArray_of_lt
    (modExp_lt (toBigNumber A * modExp (toBigNumber verifier) (scramble sha1 A B) _N)
      (toBigNumber random))
  have hsecret : (toBigNumber S : Int) = Client.secret a (scramble sha1 A B)
      (passwordHash sha1 username password salt) B := by
    rw [hS, hAval]
    exact secret_agrees hv hB
  have hkey := sessionKey_of_bytes sha1 hsecret
  have hne : toBigNumber A % _N ≠ 0 := by
    rw [hAval]
    exact fun h => hA (Nat.dvd_of_mod_eq_zero h)
  refine ⟨verifier, ⟨false, sha1 username, toBigNumber random, toBigNumber verifier, salt, B⟩, A, S,
    sha1Interleave sha1 S, hverifier, ?_, hAok, hSok, hsecret, hkey, ?_⟩
  · rw [new, _B, hBok]
    rfl
  · rw [SRP6.verifyChallengeResponse, if_neg (by simp)]
    dsimp only
    rw [if_neg hne, SRP6.sessionSecret]
    dsimp only
    -- `_N` is made from `N`.
    rw [show toBigNumber N = _N from rfl, hSok]
    exact if_pos rfl

/-- A hash to which every byte counts, an odd number. -/
def weakHash : SHA1 := fun bytes =>
  ⟨toLE 20 (2 * bytes.foldl (fun h c => h * 257 + c.toNat + 1) 0 + 1), toLE_length _ _⟩

theorem toBigNumber_weakHash_ne (bytes : List UInt8) : toBigNumber (weakHash bytes) ≠ 0 := by
  rw [toBigNumber, weakHash, ofLE_toLE_mod]
  omega

def smallSalt : Bytes 32 := ⟨toLE 32 5, rfl⟩

theorem agreement_small :
    ∃ verifier srp A S K,
      calculateVerifier weakHash [65] [66] smallSalt = .ok verifier ∧
        new weakHash [65] smallSalt verifier ⟨toLE 32 3, rfl⟩ = .ok srp ∧
        Client.publicKey 2 = .ok A ∧ srp.sessionSecret weakHash A = .ok S ∧
        passwordHash weakHash [65] [66] smallSalt ≠ 0 ∧ scramble weakHash A srp.B ≠ 0 ∧
        srp.verifyChallengeResponse weakHash A
          (proof weakHash (weakHash [65]) smallSalt A srp.B K) =
            .ok (some K, { srp with used := true }) := by
  obtain ⟨verifier, srp, A, S, K, hv, hs, hA, hS, -, -, h⟩ :=
    agreement weakHash [65] [66] smallSalt ⟨toLE 32 3, rfl⟩ 2 (by decide)
  exact ⟨verifier, srp, A, S, K, hv, hs, hA, hS, toBigNumber_weakHash_ne _,
    toBigNumber_weakHash_ne _, h⟩

end WarheadDiscord.Crypto
