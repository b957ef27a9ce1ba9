import WarheadDiscord.Common.SRP6
import WarheadDiscord.Lib.Keystream
import WarheadDiscord.Lib.SizeT

/-!
# `AuthCrypt`

The encryption of a connection by `ARC4`, in both directions.  The keystream of `EVP_rc4` and
`HMAC` with `SHA1` are arbitrary functions.

* `ARC4.updateData`, `AuthCrypt.init`, `AuthCrypt.encryptSend`, `AuthCrypt.decryptRecv`: the source.
* `step_follows`: what one call does, in its own direction.
* `authCrypt_spec`: **the bytes of a connection**, for every order of the calls and however the
  texts are cut.
-/

namespace WarheadDiscord.Crypto

open Lib

/-- The keystream of `EVP_rc4` for a key. -/
abbrev RC4 := List UInt8 → Nat → UInt8

/-! ### The source -/

/-- A context of `EVP_rc4`: its keystream, and how far it has come. -/
structure ARC4 where
  keystream : Nat → UInt8
  pos : Nat

def ARC4.init (rc4 : RC4) (seed : List UInt8) : ARC4 := ⟨rc4 seed, 0⟩

/-- `ARC4::UpdateData`.  The length becomes an `int`, and `EVP_EncryptUpdate` fails for a negative
one. -/
def ARC4.updateData (c : ARC4) (data : List UInt8) : Except Fault (List UInt8 × ARC4) :=
  let len := toInt32 data.length
  if len < 0 then .error (.assertion "result1 == 1")
  else
    .ok (xorFrom c.keystream c.pos (data.take len.toNat) ++ data.drop len.toNat,
      { c with pos := c.pos + len.toNat })

/-- `_initialized` is false while there are no keys. -/
structure AuthCrypt where
  clientDecrypt : ARC4
  serverEncrypt : ARC4
  initialized : Bool

def serverEncryptionKey : List UInt8 :=
  [0xCC, 0x98, 0xAE, 0x04, 0xE8, 0x97, 0xEA, 0xCA, 0x12, 0xDD, 0xC0, 0x93, 0x42, 0x91, 0x53, 0x57]

def serverDecryptionKey : List UInt8 :=
  [0xC2, 0xB3, 0x72, 0x3C, 0xC6, 0xAE, 0xD9, 0xB5, 0x34, 0x3C, 0x53, 0xEE, 0x2F, 0x43, 0x67, 0xCE]

/-- The two keystreams of a session. -/
def sendStream (rc4 : RC4) (hmac : List UInt8 → List UInt8 → Bytes 20) (K : Bytes 40) :
    Nat → UInt8 :=
  rc4 (hmac serverEncryptionKey K.val).val

def recvStream (rc4 : RC4) (hmac : List UInt8 → List UInt8 → Bytes 20) (K : Bytes 40) :
    Nat → UInt8 :=
  rc4 (hmac serverDecryptionKey K.val).val

namespace AuthCrypt

/-- `AuthCrypt::Init`, with what `syncBuf` holds before it is written. -/
def init (rc4 : RC4) (hmac : List UInt8 → List UInt8 → Bytes 20) (syncBuf : Bytes 1024)
    (K : Bytes 40) : Except Fault AuthCrypt := do
  let serverEncrypt := ARC4.init rc4 (hmac serverEncryptionKey K.val).val
  let clientDecrypt := ARC4.init rc4 (hmac serverDecryptionKey K.val).val
  let (syncBuf, serverEncrypt) ← serverEncrypt.updateData syncBuf.val
  let (_, clientDecrypt) ← clientDecrypt.updateData syncBuf
  return ⟨clientDecrypt, serverEncrypt, true⟩

def decryptRecv (a : AuthCrypt) (data : List UInt8) : Except Fault (List UInt8 × AuthCrypt) :=
  if a.initialized then
    match a.clientDecrypt.updateData data with
    | .ok (data, clientDecrypt) => .ok (data, { a with clientDecrypt := clientDecrypt })
    | .error e => .error e
  else .error (.assertion "_initialized")

def encryptSend (a : AuthCrypt) (data : List UInt8) : Except Fault (List UInt8 × AuthCrypt) :=
  if a.initialized then
    match a.serverEncrypt.updateData data with
    | .ok (data, serverEncrypt) => .ok (data, { a with serverEncrypt := serverEncrypt })
    | .error e => .error e
  else .error (.assertion "_initialized")

end AuthCrypt

/-! ### A connection -/

/-- A call for one of the two directions. -/
inductive CryptCall where
  | encryptSend (data : List UInt8)
  | decryptRecv (data : List UInt8)

def CryptCall.data : CryptCall → List UInt8
  | .encryptSend data => data
  | .decryptRecv data => data

/-- The bytes that are to be sent, and those that come. -/
def CryptCall.toSend : CryptCall → List UInt8
  | .encryptSend data => data
  | .decryptRecv _ => []

def CryptCall.came : CryptCall → List UInt8
  | .encryptSend _ => []
  | .decryptRecv data => data

/-- A connection, with all that the calls have given. -/
structure CryptLink where
  crypt : AuthCrypt
  sent : List UInt8 := []
  received : List UInt8 := []

def CryptLink.step (l : CryptLink) : CryptCall → Except Fault CryptLink
  | .encryptSend data => do
    let (data, crypt) ← l.crypt.encryptSend data
    return { l with crypt := crypt, sent := l.sent ++ data }
  | .decryptRecv data => do
    let (data, crypt) ← l.crypt.decryptRecv data
    return { l with crypt := crypt, received := l.received ++ data }

/-- A connection from the exchange of the session key on. -/
def CryptLink.start (rc4 : RC4) (hmac : List UInt8 → List UInt8 → Bytes 20) (syncBuf : Bytes 1024)
    (K : Bytes 40) : Except Fault CryptLink := do
  let crypt ← AuthCrypt.init rc4 hmac syncBuf K
  return { crypt := crypt }

/-- The texts `out` and `came` have gone through the two keystreams, each from its byte 1024 on. -/
structure Follows (send recv : Nat → UInt8) (out came : List UInt8) (l : CryptLink) : Prop where
  initialized : l.crypt.initialized = true
  encrypt : l.crypt.serverEncrypt = ⟨send, 1024 + out.length⟩
  decrypt : l.crypt.clientDecrypt = ⟨recv, 1024 + came.length⟩
  sent : l.sent = xorFrom send 1024 out
  received : l.received = xorFrom recv 1024 came

theorem ARC4.updateData_ok (c : ARC4) {data : List UInt8} (h : data.length < 2 ^ 31) :
    c.updateData data =
      .ok (xorFrom c.keystream c.pos data, { c with pos := c.pos + data.length }) := by
  rw [ARC4.updateData, toInt32_of_lt h, if_neg (by omega), Int.toNat_natCast, List.take_length,
    List.drop_length, List.append_nil]

section Link

variable {rc4 : RC4} {hmac : List UInt8 → List UInt8 → Bytes 20} {K : Bytes 40}
  {send recv : Nat → UInt8} {out came : List UInt8} {l : CryptLink}

variable (rc4 hmac K) in
theorem start_follows (syncBuf : Bytes 1024) : ∃ l, CryptLink.start rc4 hmac syncBuf K = .ok l ∧
    Follows (sendStream rc4 hmac K) (recvStream rc4 hmac K) [] [] l := by
  have hlen : syncBuf.val.length < 2 ^ 31 := by
    rw [syncBuf.2]
    decide
  have hsend := ARC4.updateData_ok (ARC4.init rc4 (hmac serverEncryptionKey K.val).val) hlen
  have hrecv := ARC4.updateData_ok (ARC4.init rc4 (hmac serverDecryptionKey K.val).val)
    (show (xorFrom (sendStream rc4 hmac K) 0 syncBuf.val).length < 2 ^ 31 by
      rw [xorFrom_length]
      exact hlen)
  refine ⟨{ crypt := ⟨⟨recvStream rc4 hmac K, 1024⟩, ⟨sendStream rc4 hmac K, 1024⟩, true⟩ }, ?_,
    ⟨rfl, rfl, rfl, rfl, rfl⟩⟩
  rw [CryptLink.start, AuthCrypt.init]
  dsimp only
  rw [hsend, ok_bind]
  dsimp only [ARC4.init, sendStream] at hrecv ⊢
  rw [hrecv]
  simp only [xorFrom_length, syncBuf.2]
  rfl

/-- **One call** goes on in its own direction and leaves the other one alone. -/
theorem step_follows (h : Follows send recv out came l) {call : CryptCall}
    (hlen : call.data.length < 2 ^ 31) : ∃ m, l.step call = .ok m ∧
      Follows send recv (out ++ call.toSend) (came ++ call.came) m := by
  cases call with
  | encryptSend data =>
    have hupdate := ARC4.updateData_ok ⟨send, 1024 + out.length⟩ hlen
    refine ⟨⟨⟨l.crypt.clientDecrypt, ⟨send, 1024 + out.length + data.length⟩, l.crypt.initialized⟩,
      l.sent ++ xorFrom send (1024 + out.length) data, l.received⟩, ?_, ?_⟩
    · rw [CryptLink.step, AuthCrypt.encryptSend, if_pos h.initialized, h.encrypt]
      dsimp only [CryptCall.data] at hupdate
      rw [hupdate]
      rfl
    · refine ⟨h.initialized, ?_, ?_, ?_, ?_⟩
      · rw [CryptCall.toSend, List.length_append, Nat.add_assoc]
      · rw [CryptCall.came, List.append_nil]
        exact h.decrypt
      · rw [CryptCall.toSend, xorFrom_append, h.sent]
      · rw [CryptCall.came, List.append_nil]
        exact h.received
  | decryptRecv data =>
    have hupdate := ARC4.updateData_ok ⟨recv, 1024 + came.length⟩ hlen
    refine ⟨⟨⟨⟨recv, 1024 + came.length + data.length⟩, l.crypt.serverEncrypt, l.crypt.initialized⟩,
      l.sent, l.received ++ xorFrom recv (1024 + came.length) data⟩, ?_, ?_⟩
    · rw [CryptLink.step, AuthCrypt.decryptRecv, if_pos h.initialized, h.decrypt]
      dsimp only [CryptCall.data] at hupdate
      rw [hupdate]
      rfl
    · refine ⟨h.initialized, ?_, ?_, ?_, ?_⟩
      · rw [CryptCall.toSend, List.append_nil]
        exact h.encrypt
      · rw [CryptCall.came, List.length_append, Nat.add_assoc]
      · rw [CryptCall.toSend, List.append_nil]
        exact h.sent
      · rw [CryptCall.came, xorFrom_append, h.received]

theorem run_follows {calls : List CryptCall} (h : Follows send recv out came l)
    (hlen : ∀ call ∈ calls, call.data.length < 2 ^ 31) : ∃ m, run CryptLink.step l calls = .ok m ∧
      Follows send recv (out ++ calls.flatMap CryptCall.toSend)
        (came ++ calls.flatMap CryptCall.came) m := by
  induction calls generalizing l out came with
  | nil =>
    refine ⟨l, rfl, ?_⟩
    rw [List.flatMap_nil, List.flatMap_nil, List.append_nil, List.append_nil]
    exact h
  | cons call calls ih =>
    obtain ⟨m, hm, hfollows⟩ := step_follows h (hlen call List.mem_cons_self)
    obtain ⟨u, hu, hall⟩ := ih hfollows fun c hc => hlen c (List.mem_cons_of_mem _ hc)
    refine ⟨u, by rw [run_cons_of_ok hm]; exact hu, ?_⟩
    rw [List.flatMap_cons, List.flatMap_cons, ← List.append_assoc, ← List.append_assoc]
    exact hall

end Link

/-- **The bytes of a connection.**  For every order of the calls, and however both texts are cut
into calls of fewer than 2^31 bytes: what is sent is the text under the one keystream from its
byte 1024 on, so a peer that has this keystream reads the text; and what a peer sends under the
other one is received. -/
theorem authCrypt_spec (rc4 : RC4) (hmac : List UInt8 → List UInt8 → Bytes 20)
    (syncBuf : Bytes 1024) (K : Bytes 40) (calls : List CryptCall)
    (hlen : ∀ call ∈ calls, call.data.length < 2 ^ 31) :
    ∃ l m, CryptLink.start rc4 hmac syncBuf K = .ok l ∧ run CryptLink.step l calls = .ok m ∧
      m.sent = xorFrom (sendStream rc4 hmac K) 1024 (calls.flatMap CryptCall.toSend) ∧
      xorFrom (sendStream rc4 hmac K) 1024 m.sent = calls.flatMap CryptCall.toSend ∧
      ∀ text, calls.flatMap CryptCall.came = xorFrom (recvStream rc4 hmac K) 1024 text →
        m.received = text := by
  obtain ⟨l, hl, hstart⟩ := start_follows rc4 hmac K syncBuf
  obtain ⟨m, hm, hrun⟩ := run_follows hstart hlen
  have hsent := hrun.sent
  rw [List.nil_append] at hsent
  refine ⟨l, m, hl, hm, hsent, ?_, fun text ht => ?_⟩
  · rw [hsent, xorFrom_xorFrom]
  · rw [hrun.received, List.nil_append, ht, xorFrom_xorFrom]

def countingRc4 : RC4 := fun seed i => seed.headD 0 + UInt8.ofNat i

def firstByteHmac (key _text : List UInt8) : Bytes 20 :=
  ⟨List.replicate 20 (key.headD 0), List.length_replicate⟩

/-- Two bytes come one by one, between two texts that are sent. -/
theorem authCrypt_spec_cut : ∃ l m,
    CryptLink.start countingRc4 firstByteHmac ⟨List.replicate 1024 7, List.length_replicate⟩
        ⟨List.replicate 40 1, List.length_replicate⟩ = .ok l ∧
      run CryptLink.step l [.encryptSend [1, 2], .decryptRecv [0xAA], .encryptSend [3],
        .decryptRecv [0xAA]] = .ok m ∧ m.received = [104, 105] := by
  obtain ⟨l, m, hl, hm, -, -, hreceived⟩ := authCrypt_spec countingRc4 firstByteHmac
    ⟨List.replicate 1024 7, List.length_replicate⟩ ⟨List.replicate 40 1, List.length_replicate⟩
    [.encryptSend [1, 2], .decryptRecv [0xAA], .encryptSend [3], .decryptRecv [0xAA]] (by decide)
  exact ⟨l, m, hl, hm, hreceived [104, 105] (by decide)⟩

end WarheadDiscord.Crypto
