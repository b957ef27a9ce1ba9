import WarheadDiscord.Client.ReadSide
import WarheadDiscord.Lib.Outcome

/-!
# The reader with its accesses checked

The reader of `ReadSide.lean` once more, with a check in front of everything that the
code takes for granted: the two differences of a `MessageBuffer` do not wrap, a read and a
write stay in bounds, and the buffers are in order after every statement (`InOrder`).  At
an `AsyncRead` the read buffer has to be empty and to offer `READ_BLOCK_SIZE` bytes.

The data handler does not throw here, and is otherwise arbitrary.

* `readHandlerInternal_erase`: without the checks it is the reader of `ReadSide.lean`.
-/

namespace WarheadDiscord

open Lib

/-- What a check finds. -/
inductive Misuse where
  | activeSizeWraps
  | remainingSpaceWraps
  | readOutOfBounds
  | writeOutOfBounds
  | outOfOrder
  | asyncRead
  | fault (f : Fault)
  deriving DecidableEq, Repr

/-- A `ReadDataHandler` that does not throw. -/
abbrev TotalHandler := DiscordPacket → ClientSession → ClientSession × ReadDataHandlerResult

def TotalHandler.toDataHandler (handler : TotalHandler) : DataHandler :=
  fun packet s => .ok (handler packet s)

/-- The positions of the three buffers are in order, and while the header is not complete
nothing is in the payload buffer. -/
structure ReadSide.InOrder (r : ReadSide) : Prop where
  readBuffer : r.readBuffer.rpos ≤ r.readBuffer.wpos ∧
    r.readBuffer.wpos ≤ r.readBuffer.storage.length
  headerBuffer : r.headerBuffer.rpos ≤ r.headerBuffer.wpos ∧
    r.headerBuffer.wpos ≤ r.headerBuffer.storage.length
  packetBuffer : r.packetBuffer.rpos ≤ r.packetBuffer.wpos ∧
    r.packetBuffer.wpos ≤ r.packetBuffer.storage.length
  payload : r.headerBuffer.getRemainingSpace = 0 ∨ r.packetBuffer.wpos = 0

namespace Checked

def require (why : Misuse) (p : Prop) [Decidable p] : Except Misuse Unit :=
  if p then .ok () else .error why

/-! ### The buffers -/

def getActiveSize (b : MessageBuffer) : Except Misuse Nat := do
  require .activeSizeWraps (b.rpos ≤ b.wpos)
  return b.getActiveSize

def getRemainingSpace (b : MessageBuffer) : Except Misuse Nat := do
  require .remainingSpaceWraps (b.wpos ≤ b.storage.length)
  return b.getRemainingSpace

def fromReadPointer (b : MessageBuffer) (bytes : Nat) : Except Misuse (List UInt8) := do
  require .readOutOfBounds (b.rpos + bytes ≤ b.storage.length)
  return b.fromReadPointer bytes

def readCompleted (b : MessageBuffer) (bytes : Nat) : Except Misuse MessageBuffer := do
  require .activeSizeWraps (b.rpos + bytes ≤ b.wpos)
  return b.readCompleted bytes

def write (b : MessageBuffer) (data : List UInt8) : Except Misuse MessageBuffer := do
  require .writeOutOfBounds (b.wpos + data.length ≤ b.storage.length)
  return b.write data

instance (r : ReadSide) : Decidable r.InOrder :=
  decidable_of_iff ((_ ∧ _) ∧ (_ ∧ _) ∧ (_ ∧ _) ∧ (_ ∨ _))
    ⟨fun h => ⟨h.1, h.2.1, h.2.2.1, h.2.2.2⟩, fun h => ⟨h.1, h.2, h.3, h.4⟩⟩

/-- The state after a statement. -/
def observe (r : ReadSide) : Except Misuse ReadSide := do
  require .outOfOrder r.InOrder
  return r

/-! ### The reader -/

def asyncRead (isOpen : Bool) (r : ReadSide) : Except Misuse ReadSide :=
  if !isOpen then .ok r
  else do
    let activeSize ← getActiveSize r.readBuffer
    require .asyncRead (activeSize = 0)
    let offered ← getRemainingSpace (r.asyncRead isOpen).readBuffer
    require .asyncRead (offered = readBlockSize)
    observe (r.asyncRead isOpen)

def readHeaderHandler (e : Endian) (r : ReadSide) : Except Misuse (ReadSide × Bool) := do
  let _ ← getActiveSize r.headerBuffer
  match r.readHeaderHandler e with
  | .error f => .error (.fault f)
  | .ok (r', valid) => do
    let _ ← fromReadPointer r.headerBuffer DiscordClientPktHeader.sizeOf
    let r' ← observe r'
    return (r', valid)

/-- The step that moves `bytes` bytes of the read buffer on: the buffer that they went to is
in `r` already. -/
def consume (r : ReadSide) (bytes : Nat) : Except Misuse ReadSide := do
  let r ← observe r
  let readBuffer ← readCompleted r.readBuffer bytes
  observe { r with readBuffer := readBuffer }

/-- `ASSERT(packet.GetActiveSize() == 0)`. -/
def assertEmpty (r : ReadSide) : Except Misuse Unit := do
  let activeSize ← getActiveSize r.readBuffer
  require (.fault (.assertion "packet.GetActiveSize() == 0")) (activeSize = 0)

/-- The end of `receiveHeader`, behind the write. -/
def headerWritten (e : Endian) (r : ReadSide) : Except Misuse (ReadSide × HeaderState) := do
  let headerSpace ← getRemainingSpace r.headerBuffer
  if headerSpace > 0 then do
    assertEmpty r
    return (r, .incomplete)
  else do
    let (r, valid) ← readHeaderHandler e r
    return (r, if valid then .complete else .malformed)

def receiveHeader (e : Endian) (r : ReadSide) : Except Misuse (ReadSide × HeaderState) := do
  let headerSpace ← getRemainingSpace r.headerBuffer
  if headerSpace > 0 then do
    let activeSize ← getActiveSize r.readBuffer
    let data ← fromReadPointer r.readBuffer (min activeSize headerSpace)
    let headerBuffer ← write r.headerBuffer data
    let r ← consume { r with headerBuffer := headerBuffer } (min activeSize headerSpace)
    headerWritten e r
  else return (r, .complete)

/-- The end of `receivePayload`, behind the write. -/
def payloadWritten (r : ReadSide) : Except Misuse (ReadSide × Bool) := do
  let packetSpace ← getRemainingSpace r.packetBuffer
  if packetSpace > 0 then do
    assertEmpty r
    return (r, false)
  else return (r, true)

def receivePayload (r : ReadSide) : Except Misuse (ReadSide × Bool) := do
  let packetSpace ← getRemainingSpace r.packetBuffer
  if packetSpace > 0 then do
    let activeSize ← getActiveSize r.readBuffer
    let data ← fromReadPointer r.readBuffer (min activeSize packetSpace)
    let packetBuffer ← write r.packetBuffer data
    let r ← consume { r with packetBuffer := packetBuffer } (min activeSize packetSpace)
    payloadWritten r
  else return (r, true)

/-- `ReadDataHandler` and the `Reset` of the header behind it. -/
def dispatch (e : Endian) (handler : TotalHandler) (r : ReadSide) (s : ClientSession) :
    Except Misuse (ReadSide × ClientSession × ReadDataHandlerResult) := do
  let _ ← fromReadPointer r.headerBuffer DiscordClientPktHeader.sizeOf
  let moved ← observe (r.takePacket e).2
  let r' ← observe { moved with headerBuffer := r.headerBuffer.reset }
  return (r', handler (r.takePacket e).1 s)

def readHandlerLoop (e : Endian) (handler : TotalHandler) :
    Nat → ReadSide → ClientSession → Except Misuse (ReadSide × ClientSession)
  | 0, _, _ => .error (.fault .outOfFuel)
  | fuel + 1, r, s => do
    let activeSize ← getActiveSize r.readBuffer
    if activeSize > 0 then
      match receiveHeader e r with
      | .error f => .error f
      | .ok (r, .incomplete) => do
        let r ← asyncRead s.isOpen r
        return (r, s)
      | .ok (r, .malformed) => .ok (r, s.closeSocket)
      | .ok (r, .complete) =>
        match receivePayload r with
        | .error f => .error f
        | .ok (r, false) => do
          let r ← asyncRead s.isOpen r
          return (r, s)
        | .ok (r, true) =>
          match dispatch e handler r s with
          | .error f => .error f
          | .ok (r, s, .ok) => readHandlerLoop e handler fuel r s
          | .ok (r, s, .waitingForQuery) => .ok (r, s)
          | .ok (r, s, .error) => .ok (r, s.closeSocket)
    else do
      let r ← asyncRead s.isOpen r
      return (r, s)

/-- The bytes are in the read buffer, and `ReadHandler` follows. -/
def readHandler (e : Endian) (handler : TotalHandler) (r : ReadSide) (s : ClientSession) :
    Except Misuse (ReadSide × ClientSession) := do
  let activeSize ← getActiveSize r.readBuffer
  readHandlerLoop e handler (activeSize + 1) r s

def readHandlerInternal (e : Endian) (handler : TotalHandler) (transferred : List UInt8)
    (r : ReadSide) (s : ClientSession) : Except Misuse (ReadSide × ClientSession) := do
  let readBuffer ← write r.readBuffer transferred
  let r ← observe { r with readBuffer := readBuffer, readPending := false }
  readHandler e handler r s

/-! ### Without the checks -/

variable {e : Endian} {handler : TotalHandler} {r r' : ReadSide} {s t : ClientSession}

theorem require_ok {why : Misuse} {p : Prop} [Decidable p] {u : Unit}
    (h : require why p = .ok u) : p := by
  rw [require] at h
  split at h
  · assumption
  · cases h

theorem getActiveSize_ok {b : MessageBuffer} {n : Nat} (h : getActiveSize b = .ok n) :
    n = b.getActiveSize := by
  obtain ⟨_, -, h⟩ := bind_ok h
  cases h
  rfl

theorem getRemainingSpace_ok {b : MessageBuffer} {n : Nat} (h : getRemainingSpace b = .ok n) :
    n = b.getRemainingSpace := by
  obtain ⟨_, -, h⟩ := bind_ok h
  cases h
  rfl

theorem fromReadPointer_ok {b : MessageBuffer} {n : Nat} {data : List UInt8}
    (h : fromReadPointer b n = .ok data) : data = b.fromReadPointer n := by
  obtain ⟨_, -, h⟩ := bind_ok h
  cases h
  rfl

theorem write_ok {b b' : MessageBuffer} {data : List UInt8} (h : write b data = .ok b') :
    b' = b.write data := by
  obtain ⟨_, -, h⟩ := bind_ok h
  cases h
  rfl

theorem observe_ok (h : observe r = .ok r') : r' = r ∧ r.InOrder := by
  obtain ⟨_, ho, h⟩ := bind_ok h
  cases h
  exact ⟨rfl, require_ok ho⟩

theorem consume_ok {n : Nat} (h : consume r n = .ok r') :
    r' = { r with readBuffer := r.readBuffer.readCompleted n } := by
  obtain ⟨r₁, ho, h₁⟩ := bind_ok h
  obtain ⟨b, hc, h₂⟩ := bind_ok h₁
  obtain ⟨_, -, hb⟩ := bind_ok hc
  cases hb
  rw [(observe_ok h₂).1, (observe_ok ho).1]

theorem assertEmpty_ok {u : Unit} (h : assertEmpty r = .ok u) :
    r.readBuffer.getActiveSize = 0 := by
  obtain ⟨n, ha, h⟩ := bind_ok h
  rw [← getActiveSize_ok ha]
  exact require_ok h

theorem asyncRead_erase {isOpen : Bool} (h : asyncRead isOpen r = .ok r') :
    r' = r.asyncRead isOpen := by
  rw [asyncRead] at h
  cases isOpen with
  | false => cases h; rfl
  | true =>
    obtain ⟨_, -, h⟩ := bind_ok h
    obtain ⟨_, -, h⟩ := bind_ok h
    obtain ⟨_, -, h⟩ := bind_ok h
    obtain ⟨_, -, h⟩ := bind_ok h
    exact (observe_ok h).1

theorem readHeaderHandler_erase {x : ReadSide × Bool} (h : readHeaderHandler e r = .ok x) :
    r.readHeaderHandler e = .ok x := by
  obtain ⟨_, -, h⟩ := bind_ok h
  split at h
  · cases h
  · rename_i hr
    obtain ⟨_, -, h₁⟩ := bind_ok h
    obtain ⟨r₁, ho, h₂⟩ := bind_ok h₁
    rw [(observe_ok ho).1] at h₂
    cases h₂
    exact hr

theorem receiveHeader_erase {x : ReadSide × HeaderState} (h : receiveHeader e r = .ok x) :
    r.receiveHeader e = .ok x := by
  obtain ⟨_, hs, h⟩ := bind_ok h
  obtain rfl := getRemainingSpace_ok hs
  rw [ReadSide.receiveHeader]
  split at h
  · rename_i hpos
    obtain ⟨_, ha, h⟩ := bind_ok h
    obtain rfl := getActiveSize_ok ha
    obtain ⟨_, hd, h⟩ := bind_ok h
    obtain rfl := fromReadPointer_ok hd
    obtain ⟨_, hw, h⟩ := bind_ok h
    obtain rfl := write_ok hw
    obtain ⟨_, hc, h⟩ := bind_ok h
    obtain rfl := consume_ok hc
    obtain ⟨_, hs, h⟩ := bind_ok h
    obtain rfl := getRemainingSpace_ok hs
    rw [if_pos hpos]
    dsimp only
    split at h
    · rename_i hpos'
      obtain ⟨_, hz, h⟩ := bind_ok h
      have hz := assertEmpty_ok hz
      cases h
      rw [if_pos hpos', if_neg (fun hn => hn hz)]
    · rename_i hpos'
      obtain ⟨_, hr, h⟩ := bind_ok h
      have hr := readHeaderHandler_erase hr
      cases h
      rw [if_neg hpos', hr]
  · rename_i hpos
    cases h
    rw [if_neg hpos]

theorem receivePayload_erase {x : ReadSide × Bool} (h : receivePayload r = .ok x) :
    r.receivePayload = .ok x := by
  obtain ⟨_, hs, h⟩ := bind_ok h
  obtain rfl := getRemainingSpace_ok hs
  rw [ReadSide.receivePayload]
  split at h
  · rename_i hpos
    obtain ⟨_, ha, h⟩ := bind_ok h
    obtain rfl := getActiveSize_ok ha
    obtain ⟨_, hd, h⟩ := bind_ok h
    obtain rfl := fromReadPointer_ok hd
    obtain ⟨_, hw, h⟩ := bind_ok h
    obtain rfl := write_ok hw
    obtain ⟨_, hc, h⟩ := bind_ok h
    obtain rfl := consume_ok hc
    obtain ⟨_, hs, h⟩ := bind_ok h
    obtain rfl := getRemainingSpace_ok hs
    rw [if_pos hpos]
    dsimp only
    split at h
    · rename_i hpos'
      obtain ⟨_, hz, h⟩ := bind_ok h
      have hz := assertEmpty_ok hz
      cases h
      rw [if_pos hpos', if_neg (fun hn => hn hz)]
    · rename_i hpos'
      cases h
      rw [if_neg hpos']
  · rename_i hpos
    cases h
    rw [if_neg hpos]

theorem dispatch_ok {result : ReadDataHandlerResult}
    (h : dispatch e handler r s = .ok (r', t, result)) :
    handler.toDataHandler (r.takePacket e).1 s = .ok (t, result) ∧
      { (r.takePacket e).2 with headerBuffer := r.headerBuffer.reset } = r' := by
  obtain ⟨_, -, h₁⟩ := bind_ok h
  obtain ⟨moved, hm, h₂⟩ := bind_ok h₁
  rw [(observe_ok hm).1] at h₂
  obtain ⟨r₁, ho, h₃⟩ := bind_ok h₂
  rw [(observe_ok ho).1] at h₃
  injection h₃ with h₃
  injection h₃ with hr ht
  exact ⟨congrArg Except.ok ht, hr⟩

theorem readHandlerLoop_erase : ∀ (fuel : Nat) (r : ReadSide) (s : ClientSession)
    {x : ReadSide × ClientSession}, readHandlerLoop e handler fuel r s = .ok x →
    ReadSide.readHandlerLoop e handler.toDataHandler fuel r s = .ok x := by
  intro fuel
  induction fuel with
  | zero => intro r s x h; cases h
  | succ fuel ih =>
    intro r s x h
    have hasync : ∀ {r : ReadSide}, (asyncRead s.isOpen r >>= fun r => pure (r, s)) = .ok x →
        (.ok (r.asyncRead s.isOpen, s) : Except Fault _) = .ok x := by
      intro r h
      obtain ⟨r', hr, h'⟩ := bind_ok h
      rw [asyncRead_erase hr] at h'
      cases h'
      rfl
    rw [readHandlerLoop] at h
    obtain ⟨n, hn, h₁⟩ := bind_ok h
    rw [getActiveSize_ok hn] at h₁
    rw [ReadSide.readHandlerLoop]
    split at h₁
    · rename_i hpos
      rw [if_pos hpos]
      split at h₁
      · cases h₁
      · rename_i hr
        rw [receiveHeader_erase hr]
        exact hasync h₁
      · rename_i hr
        rw [receiveHeader_erase hr]
        cases h₁
        rfl
      · rename_i hr
        rw [receiveHeader_erase hr]
        dsimp only
        split at h₁
        · cases h₁
        · rename_i hp
          rw [receivePayload_erase hp]
          exact hasync h₁
        · rename_i hp
          rw [receivePayload_erase hp]
          dsimp only
          split at h₁
          · cases h₁
          · rename_i hd
            obtain ⟨ht, rfl⟩ := dispatch_ok hd
            rw [ht]
            exact ih _ _ h₁
          · rename_i hd
            obtain ⟨ht, rfl⟩ := dispatch_ok hd
            rw [ht]
            cases h₁
            rfl
          · rename_i hd
            obtain ⟨ht, rfl⟩ := dispatch_ok hd
            rw [ht]
            cases h₁
            rfl
    · rename_i hpos
      rw [if_neg hpos]
      exact hasync h₁

/-- **Without the checks it is the reader that the program has.** -/
theorem readHandlerInternal_erase {chunk : List UInt8} {x : ReadSide × ClientSession}
    (h : readHandlerInternal e handler chunk r s = .ok x) :
    ReadSide.readHandlerInternal e handler.toDataHandler chunk r s = .ok x := by
  obtain ⟨b, hb, h₁⟩ := bind_ok h
  obtain ⟨r₁, ho, h₂⟩ := bind_ok h₁
  obtain ⟨n, hn, h₃⟩ := bind_ok h₂
  rw [getActiveSize_ok hn, (observe_ok ho).1, write_ok hb] at h₃
  exact readHandlerLoop_erase _ _ _ h₃

end Checked

end WarheadDiscord
