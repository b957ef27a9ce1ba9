import WarheadDiscord.Client.CheckedReader
import WarheadDiscord.Client.ReadHandler
import WarheadDiscord.Client.Stream

/-!
# The buffers of the reader are used safely

No check of the reader in `CheckedReader.lean` fails, whatever the data handler does and
whatever arrives.  What carries this from one statement to the next is `Sane`: the header
buffer has six bytes and was not read, and as long as it is not full nothing is in the
payload buffer, so that this can be given any size.

* `receiveHeader_returns`, `receivePayload_returns`, `dispatch_returns`,
  `asyncRead_returns`: what each part of a round keeps.
* `reader_safe`: in every state that is reached.
-/

namespace WarheadDiscord

open Lib

namespace Checked

variable {e : Endian} {handler : TotalHandler} {r : ReadSide} {pending : Bool}
  {s : ClientSession}

/-- What holds between two statements. -/
structure Sane (pending : Bool) (r : ReadSide) : Prop where
  read : r.readBuffer.Valid
  readLength : r.readBuffer.storage.length = readBlockSize
  header : r.headerBuffer.Valid
  headerRpos : r.headerBuffer.rpos = 0
  headerLength : r.headerBuffer.storage.length = 6
  packet : r.packetBuffer.Valid
  before : r.headerBuffer.wpos < 6 → r.packetBuffer.wpos = 0
  readPending : r.readPending = pending

/-- The bytes that are left to read. -/
def active (r : ReadSide) : Nat := r.readBuffer.getActiveSize

/-- At the start of a round a payload whose header is there is not complete. -/
def Short (r : ReadSide) : Prop :=
  r.headerBuffer.wpos = 6 → r.packetBuffer.wpos < r.packetBuffer.storage.length

/-- A read is outstanding. -/
structure Waiting (r : ReadSide) : Prop where
  sane : Sane true r
  short : Short r
  rpos : r.readBuffer.rpos = 0
  wpos : r.readBuffer.wpos = 0

theorem Sane.inOrder (h : Sane pending r) : r.InOrder := by
  refine ⟨⟨h.read.1, h.read.2⟩, ⟨h.header.1, h.header.2⟩, ⟨h.packet.1, h.packet.2⟩, ?_⟩
  by_cases hw : r.headerBuffer.wpos < 6
  · exact .inr (h.before hw)
  · left
    rw [MessageBuffer.getRemainingSpace, h.headerLength]
    omega

theorem Sane.headerWpos_le (h : Sane pending r) : r.headerBuffer.wpos ≤ 6 := by
  rw [← h.headerLength]
  exact h.header.wpos_le

theorem Sane.header_active (h : Sane pending r) (h6 : r.headerBuffer.wpos = 6) :
    r.headerBuffer.getActiveSize = 6 := by
  rw [MessageBuffer.getActiveSize, h6, h.headerRpos]

/-! ### The checks -/

theorem getActiveSize_returns {b : MessageBuffer} (h : b.Valid) :
    Returns (fun n => n = b.getActiveSize) (getActiveSize b) :=
  (returns_require h.rpos_le).bind fun _ _ => rfl

theorem getRemainingSpace_returns {b : MessageBuffer} (h : b.Valid) :
    Returns (fun n => n = b.getRemainingSpace) (getRemainingSpace b) :=
  (returns_require h.wpos_le).bind fun _ _ => rfl

theorem fromReadPointer_returns {b : MessageBuffer} {n : Nat} (h : b.Valid)
    (hn : n ≤ b.getActiveSize) :
    Returns (fun data => data = b.fromReadPointer n ∧ data.length = n) (fromReadPointer b n) := by
  have h1 := h.rpos_le
  have h2 := h.wpos_le
  have hb : b.rpos + n ≤ b.storage.length := by
    rw [MessageBuffer.getActiveSize] at hn
    omega
  refine (returns_require hb).bind fun _ _ => ⟨rfl, ?_⟩
  rw [MessageBuffer.fromReadPointer_eq hn, List.length_take, h.active_length, Nat.min_eq_left hn]

theorem write_returns {b : MessageBuffer} {data : List UInt8} (h : b.Valid)
    (hd : data.length ≤ b.getRemainingSpace) :
    Returns (fun b' => b' = b.write data ∧ b'.Valid) (write b data) := by
  have h2 := h.wpos_le
  have hb : b.wpos + data.length ≤ b.storage.length := by
    rw [MessageBuffer.getRemainingSpace] at hd
    omega
  exact (returns_require hb).bind fun _ _ => ⟨rfl, h.write hd⟩

theorem observe_returns (h : r.InOrder) : Returns (fun r' => r' = r) (observe r) :=
  (returns_require h).bind fun _ _ => rfl

theorem Sane.observe (h : Sane pending r) : Returns (fun r' => r' = r) (observe r) :=
  observe_returns h.inOrder

theorem Sane.readCompleted (h : Sane pending r) {n : Nat} (hn : n ≤ r.readBuffer.getActiveSize) :
    Sane pending { r with readBuffer := r.readBuffer.readCompleted n } :=
  ⟨h.read.readCompleted hn, h.readLength, h.header, h.headerRpos, h.headerLength, h.packet,
    h.before, h.readPending⟩

theorem consume_returns {n : Nat} (h : Sane pending r) (hn : n ≤ active r) :
    Returns (fun r' => Sane pending r' ∧ active r' = active r - n ∧
      r'.headerBuffer = r.headerBuffer ∧ r'.packetBuffer = r.packetBuffer) (consume r n) := by
  have h1 := h.read.rpos_le
  refine h.observe.bind fun r₁ h₁ => ?_
  rw [h₁]
  have hb : r.readBuffer.rpos + n ≤ r.readBuffer.wpos := by
    rw [active, MessageBuffer.getActiveSize] at hn
    omega
  refine Ends.bind (P := fun b => b = r.readBuffer.readCompleted n)
    ((returns_require hb).bind fun _ _ => rfl) fun b hb => ?_
  rw [hb]
  have h₂ := h.readCompleted hn
  refine h₂.observe.mono fun r' hr' => ?_
  subst hr'
  refine ⟨h₂, ?_, rfl, rfl⟩
  show r.readBuffer.wpos - (r.readBuffer.rpos + n) = r.readBuffer.wpos - r.readBuffer.rpos - n
  omega

theorem active_returns (h : Sane pending r) :
    Returns (fun n => n = active r) (getActiveSize r.readBuffer) :=
  getActiveSize_returns h.read

theorem assertEmpty_returns (h : Sane pending r) (h0 : active r = 0) :
    Returns (fun _ => True) (assertEmpty r) :=
  (active_returns h).bind fun _ hn => returns_require (hn.trans h0)

/-! ### The header -/

/-- The header is rewritten in place, and the payload buffer is empty when it is resized. -/
theorem readHeaderHandler_sane {x : ReadSide × Bool} (h : Sane pending r)
    (h6 : r.headerBuffer.wpos = 6) (h0 : r.packetBuffer.wpos = 0)
    (hx : r.readHeaderHandler e = .ok x) :
    Sane pending x.1 ∧ x.1.headerBuffer.wpos = 6 ∧ x.1.readBuffer = r.readBuffer := by
  have hlen : (r.headerBuffer.fromReadPointer 6).length = 6 := by
    have hact := h.header_active h6
    rw [MessageBuffer.fromReadPointer_eq (Nat.le_of_eq hact.symm), List.length_take,
      h.header.active_length, hact, Nat.min_self]
  have hstore : ∀ field cmd : List UInt8, field.length = 4 → cmd.length = 2 →
      (overwrite r.headerBuffer.storage r.headerBuffer.rpos (field ++ cmd)).length = 6 := by
    intro field cmd hf hc
    rw [overwrite_length (by rw [List.length_append, hf, hc, h.headerRpos, h.headerLength]),
      h.headerLength]
  have hvalid : ∀ storage : List UInt8, storage.length = 6 →
      ({ r.headerBuffer with storage := storage } : MessageBuffer).Valid := by
    intro storage hs
    exact ⟨h.header.rpos_le, by rw [hs]; exact h.headerWpos_le⟩
  have hcmd : (endianConvert e ((r.headerBuffer.fromReadPointer 6).drop 4)).length = 2 := by
    rw [endianConvert_length, List.length_drop, hlen]
  have hsize : (endianConvertReverse e ((r.headerBuffer.fromReadPointer 6).take 4)).length = 4 := by
    rw [endianConvertReverse_length, List.length_take, hlen]
    rfl
  rw [ReadSide.readHeaderHandler] at hx
  dsimp only at hx
  split at hx
  · cases hx
  · split at hx
    · cases hx
      have hs := hstore _ _ hsize hcmd
      exact ⟨⟨h.read, h.readLength, hvalid _ hs, h.headerRpos, hs, h.packet, h.before,
        h.readPending⟩, h6, rfl⟩
    · cases hx
      have hs := fun n => hstore _ _ (hostStore_length e 4 n) hcmd
      have hr := h.packet.rpos_le
      have hp : ∀ n, (r.packetBuffer.resize n).Valid := by
        intro n
        exact ⟨hr, by show r.packetBuffer.wpos ≤ _; omega⟩
      exact ⟨⟨h.read, h.readLength, hvalid _ (hs _), h.headerRpos, hs _, hp _, fun _ => h0,
        h.readPending⟩, h6, rfl⟩

theorem readHeaderHandler_returns (h : Sane pending r) (h6 : r.headerBuffer.wpos = 6)
    (h0 : r.packetBuffer.wpos = 0) :
    Returns (fun x => Sane pending x.1 ∧ x.1.headerBuffer.wpos = 6 ∧
      x.1.readBuffer = r.readBuffer) (readHeaderHandler e r) := by
  have hact := h.header_active h6
  refine (getActiveSize_returns h.header).bind fun _ _ => ?_
  cases hx : r.readHeaderHandler e with
  | error f =>
    rw [ReadSide.readHeaderHandler, if_neg (by rw [hact]; decide)] at hx
    dsimp only at hx
    split at hx <;> cases hx
  | ok x =>
    have hs := readHeaderHandler_sane h h6 h0 hx
    refine (fromReadPointer_returns h.header (Nat.le_of_eq hact.symm)).bind fun _ _ => ?_
    refine hs.1.observe.bind fun r' hr' => ?_
    rw [hr']
    exact hs

theorem receiveHeader_returns (h : Sane pending r) (ha : 0 < active r) :
    Returns (fun x => Sane pending x.1 ∧
      match x.2 with
      | .incomplete => active x.1 = 0 ∧ x.1.headerBuffer.wpos < 6
      | .malformed => True
      | .complete => x.1.headerBuffer.wpos = 6 ∧ (x.1 = r ∨ active x.1 < active r))
      (receiveHeader e r) := by
  have hle := h.headerWpos_le
  have hspace : r.headerBuffer.getRemainingSpace = 6 - r.headerBuffer.wpos := by
    rw [MessageBuffer.getRemainingSpace, h.headerLength]
  refine (getRemainingSpace_returns h.header).bind fun space hs => ?_
  rw [hspace] at hs
  split
  · rename_i hpos
    have h0 := h.before (by omega)
    refine (active_returns h).bind fun n hn => ?_
    refine (fromReadPointer_returns h.read (n := min n space)
      (hn ▸ Nat.min_le_left n space)).bind fun data hd => ?_
    have hfit : data.length ≤ r.headerBuffer.getRemainingSpace := by
      rw [hd.2, hspace, hs]
      exact Nat.min_le_right ..
    refine (write_returns h.header hfit).bind fun b hb => ?_
    have hw : b.wpos = r.headerBuffer.wpos + min n space := by
      rw [hb.1, MessageBuffer.write_wpos, hd.2]
    have hlen : b.storage.length = 6 := by
      rw [hb.1, h.header.write_storage_length hfit, h.headerLength]
    have h₁ : Sane pending { r with headerBuffer := b } :=
      ⟨h.read, h.readLength, hb.2, by rw [hb.1, MessageBuffer.write_rpos, h.headerRpos], hlen,
        h.packet, fun _ => h0, h.readPending⟩
    refine (consume_returns h₁ (hn ▸ Nat.min_le_left n space)).bind fun r' hr' => ?_
    obtain ⟨h₂, hact, hheader, hpacket⟩ := hr'
    have hact : active r' = active r - min n space := hact
    have hw' : r'.headerBuffer.wpos = b.wpos := congrArg MessageBuffer.wpos hheader
    refine (getRemainingSpace_returns h₂.header).bind fun space' hs' => ?_
    rw [MessageBuffer.getRemainingSpace, h₂.headerLength] at hs'
    split
    · have hz : active r' = 0 := by omega
      refine (assertEmpty_returns h₂ hz).bind fun _ _ => ⟨h₂, hz, ?_⟩
      show r'.headerBuffer.wpos < 6
      omega
    · refine (readHeaderHandler_returns h₂ (by omega) (by rw [hpacket]; exact h0)).bind
        fun x hx => ⟨hx.1, ?_⟩
      cases x.2 with
      | false => trivial
      | true =>
        refine ⟨hx.2.1, .inr ?_⟩
        show active x.1 < active r
        rw [active, hx.2.2, ← active]
        omega
  · refine ⟨h, ?_, .inl rfl⟩
    show r.headerBuffer.wpos = 6
    omega

/-! ### The payload -/

theorem receivePayload_returns (h : Sane pending r) (h6 : r.headerBuffer.wpos = 6) :
    Returns (fun x => Sane pending x.1 ∧ x.1.headerBuffer.wpos = 6 ∧
      (x.2 = false → active x.1 = 0 ∧ Short x.1) ∧ active x.1 ≤ active r ∧
      (0 < active r → Short r → active x.1 < active r)) (receivePayload r) := by
  have hle := h.packet.wpos_le
  refine (getRemainingSpace_returns h.packet).bind fun space hs => ?_
  have hspace := hs
  rw [MessageBuffer.getRemainingSpace] at hspace
  split
  · refine (active_returns h).bind fun n hn => ?_
    refine (fromReadPointer_returns h.read (n := min n space)
      (hn ▸ Nat.min_le_left n space)).bind fun data hd => ?_
    have hfit : data.length ≤ r.packetBuffer.getRemainingSpace := by
      rw [hd.2, ← hs]
      exact Nat.min_le_right ..
    refine (write_returns h.packet hfit).bind fun b hb => ?_
    have hw : b.wpos = r.packetBuffer.wpos + min n space := by
      rw [hb.1, MessageBuffer.write_wpos, hd.2]
    have hlen : b.storage.length = r.packetBuffer.storage.length := by
      rw [hb.1, h.packet.write_storage_length hfit]
    have h₁ : Sane pending { r with packetBuffer := b } :=
      ⟨h.read, h.readLength, h.header, h.headerRpos, h.headerLength, hb.2,
        fun hlt => by rw [h6] at hlt; omega, h.readPending⟩
    refine (consume_returns h₁ (hn ▸ Nat.min_le_left n space)).bind fun r' hr' => ?_
    obtain ⟨h₂, hact, hheader, hpacket⟩ := hr'
    have hact : active r' = active r - min n space := hact
    have h6' : r'.headerBuffer.wpos = 6 := (congrArg MessageBuffer.wpos hheader).trans h6
    refine (getRemainingSpace_returns h₂.packet).bind fun space' hs' => ?_
    rw [MessageBuffer.getRemainingSpace, hpacket] at hs'
    dsimp only at hs'
    have hless : 0 < active r → active r' < active r := by omega
    split
    · have hz : active r' = 0 := by omega
      refine (assertEmpty_returns h₂ hz).bind fun _ _ => ?_
      refine ⟨h₂, h6', fun _ => ⟨hz, fun _ => ?_⟩, ?_, fun h0 _ => hless h0⟩
      swap
      · show active r' ≤ active r
        omega
      rw [hpacket]
      show b.wpos < b.storage.length
      omega
    · refine ⟨h₂, h6', fun hf => (by cases hf), ?_, fun h0 _ => hless h0⟩
      show active r' ≤ active r
      omega
  · refine ⟨h, h6, fun hf => (by cases hf), Nat.le_refl _, fun _ hshort => ?_⟩
    have := hshort h6
    omega

theorem dispatch_returns (e : Endian) (handler : TotalHandler) (s : ClientSession)
    (h : Sane pending r) (h6 : r.headerBuffer.wpos = 6) :
    Returns (fun x => Sane pending x.1 ∧ Short x.1 ∧ active x.1 = active r)
      (dispatch e handler r s) := by
  have hact := h.header_active h6
  have hempty : (⟨0, 0, []⟩ : MessageBuffer).Valid := ⟨Nat.le_refl _, Nat.le_refl _⟩
  have hmoved : Sane pending (r.takePacket e).2 :=
    ⟨h.read, h.readLength, h.header, h.headerRpos, h.headerLength, hempty, fun _ => rfl,
      h.readPending⟩
  have hreset : Sane pending { (r.takePacket e).2 with headerBuffer := r.headerBuffer.reset } :=
    ⟨h.read, h.readLength, ⟨Nat.le_refl _, Nat.zero_le _⟩, rfl, h.headerLength, hempty,
      fun _ => rfl, h.readPending⟩
  refine (fromReadPointer_returns h.header (Nat.le_of_eq hact.symm)).bind fun _ _ => ?_
  refine hmoved.observe.bind fun moved hm => ?_
  rw [hm]
  refine hreset.observe.bind fun r' hr' => ?_
  rw [hr']
  exact ⟨hreset, fun h0 => (by cases h0), rfl⟩

/-! ### The next read -/

/-- **At an `AsyncRead` the read buffer is empty and offers `READ_BLOCK_SIZE` bytes.** -/
theorem asyncRead_returns (isOpen : Bool) (h : Sane false r) (hs : Short r)
    (h0 : active r = 0) :
    Returns (fun r' => r' = r.asyncRead isOpen ∧
      ((r' = r ∧ isOpen = false) ∨ (Waiting r' ∧ isOpen = true))) (asyncRead isOpen r) := by
  cases isOpen with
  | false => exact ⟨rfl, .inl ⟨rfl, rfl⟩⟩
  | true =>
    have hf := h.read.filled_normalize (h.read.active_eq_nil_iff.mpr h0)
    rw [h.readLength] at hf
    have hfree : 0 < r.readBuffer.normalize.getRemainingSpace := by
      rw [hf.getRemainingSpace]
      decide
    have hr : r.asyncRead true =
        { r with readBuffer := r.readBuffer.normalize, readPending := true } := by
      rw [ReadSide.asyncRead, if_neg (by decide), MessageBuffer.ensureFreeSpace_of_pos hfree]
    have hw : Waiting (r.asyncRead true) := by
      rw [hr]
      exact ⟨⟨hf.valid, hf.length_eq, h.header, h.headerRpos, h.headerLength, h.packet, h.before,
        rfl⟩, hs, hf.rpos_eq, hf.wpos_eq⟩
    rw [asyncRead, if_neg (by decide)]
    refine (getActiveSize_returns h.read).bind fun n hn => ?_
    refine (returns_require (hn.trans h0)).bind fun _ _ => ?_
    refine (getRemainingSpace_returns hw.sane.read).bind fun offered ho => ?_
    have hoffered : offered = readBlockSize := by
      rw [ho, hr, hf.getRemainingSpace]
      rfl
    refine (returns_require hoffered).bind fun _ _ => ?_
    refine hw.sane.observe.mono fun r' hr' => ⟨hr', .inr ⟨?_, rfl⟩⟩
    rw [hr']
    exact hw

/-- What `ReadHandler` leaves: sane buffers, which wait for the next read if there is one. -/
def Left (x : ReadSide × ClientSession) : Prop :=
  Sane x.1.readPending x.1 ∧ (x.1.readPending = true → Waiting x.1)

theorem Sane.left (h : Sane false r) : Left (r, s) :=
  ⟨by rw [h.readPending]; exact h, fun hp => by rw [h.readPending] at hp; cases hp⟩

theorem asyncRead_left (isOpen : Bool) (h : Sane false r) (hs : Short r) (h0 : active r = 0) :
    Returns Left (asyncRead isOpen r >>= fun r => pure (r, s)) := by
  refine (asyncRead_returns isOpen h hs h0).bind fun r' hr' => ?_
  rcases hr'.2 with ⟨heq, -⟩ | ⟨hw, -⟩
  · rw [heq]
    exact h.left
  · exact ⟨by rw [hw.sane.readPending]; exact hw.sane, fun _ => hw⟩

/-! ### The rounds -/

/-- The induction is on the fuel; every round takes a byte off the read buffer. -/
theorem readHandlerLoop_returns : ∀ (fuel : Nat) (r : ReadSide) (s : ClientSession),
    Sane false r → Short r → active r < fuel →
    Returns Left (readHandlerLoop e handler fuel r s) := by
  intro fuel
  induction fuel with
  | zero => intro r s _ _ h; exact absurd h (Nat.not_lt_zero _)
  | succ fuel ih =>
    intro r s h hs hlt
    rw [readHandlerLoop]
    refine (active_returns h).bind fun n hn => ?_
    rw [hn]
    split
    · rename_i hpos
      obtain ⟨⟨r₁, state⟩, h₁, hs₁, hstate⟩ := (receiveHeader_returns (e := e) h hpos).exists_ok
      rw [h₁]
      cases state with
      | incomplete =>
        have hshort : Short r₁ := fun h6 => absurd h6 (Nat.ne_of_lt hstate.2)
        exact asyncRead_left _ hs₁ hshort hstate.1
      | malformed => exact hs₁.left
      | complete =>
        obtain ⟨h6, hprogress⟩ := hstate
        obtain ⟨⟨r₂, done⟩, h₂, hs₂, h6₂, hshort, hle, hshrinks⟩ :=
          (receivePayload_returns hs₁ h6).exists_ok
        have hless : active r₂ < active r := by
          rcases hprogress with heq | hlt'
          · dsimp only at heq
            subst heq
            exact hshrinks hpos hs
          · exact Nat.lt_of_le_of_lt hle hlt'
        dsimp only
        rw [h₂]
        cases done with
        | false => exact asyncRead_left _ hs₂ (hshort rfl).2 (hshort rfl).1
        | true =>
          obtain ⟨⟨r₃, t, result⟩, h₃, hs₃, hshort₃, hact₃⟩ :=
            (dispatch_returns e handler s hs₂ h6₂).exists_ok
          dsimp only at hact₃ ⊢
          rw [h₃]
          cases result with
          | ok => exact ih r₃ t hs₃ hshort₃ (by omega)
          | waitingForQuery => exact hs₃.left
          | error => exact hs₃.left
    · exact asyncRead_left _ h hs (by omega)

theorem readHandlerInternal_returns (e : Endian) (handler : TotalHandler) (s : ClientSession)
    (h : Waiting r) {chunk : List UInt8}
    (hc : chunk.length ≤ r.readBuffer.getRemainingSpace) :
    Returns Left (readHandlerInternal e handler chunk r s) := by
  refine (write_returns h.sane.read hc).bind fun b hb => ?_
  have hlen : b.storage.length = readBlockSize := by
    rw [hb.1, h.sane.read.write_storage_length hc, h.sane.readLength]
  have h₁ : Sane false { r with readBuffer := b, readPending := false } :=
    ⟨hb.2, hlen, h.sane.header, h.sane.headerRpos, h.sane.headerLength, h.sane.packet,
      h.sane.before, rfl⟩
  refine h₁.observe.bind fun r₁ hr₁ => ?_
  rw [hr₁]
  refine (active_returns h₁).bind fun n hn => ?_
  exact readHandlerLoop_returns _ _ _ h₁ h.short (by omega)

/-! ### Streams -/

/-- The next chunk arrives, if a read is outstanding. -/
def deliver (e : Endian) (handler : TotalHandler) (rs : ReadSide × ClientSession)
    (chunk : List UInt8) : Except Misuse (ReadSide × ClientSession) :=
  if rs.1.readPending then readHandlerInternal e handler chunk rs.1 rs.2 else .ok rs

/-- The chunk is no longer than the space that the outstanding read offers. -/
def Fits (rs : ReadSide × ClientSession) (chunk : List UInt8) : Prop :=
  rs.1.readPending = true → chunk.length ≤ rs.1.readBuffer.getRemainingSpace

theorem Left.fits_of_le {rs : ReadSide × ClientSession} (h : Left rs) {chunk : List UInt8}
    (hc : chunk.length ≤ readBlockSize) : Fits rs chunk := by
  intro hp
  have hw := h.2 hp
  rw [MessageBuffer.getRemainingSpace, hw.wpos, hw.sane.readLength]
  exact hc

/-- **One chunk**: no check fails, and the reader without the checks does the same. -/
theorem deliver_left (e : Endian) (handler : TotalHandler) {rs : ReadSide × ClientSession}
    (h : Left rs) {chunk : List UInt8} (hc : Fits rs chunk) :
    ∃ rs', deliver e handler rs chunk = .ok rs' ∧
      WarheadDiscord.deliver e handler.toDataHandler rs chunk = .ok rs' ∧ Left rs' := by
  rw [deliver, WarheadDiscord.deliver]
  by_cases hp : rs.1.readPending = true
  · rw [if_pos hp, if_pos hp]
    obtain ⟨rs', hr, hl⟩ :=
      (readHandlerInternal_returns e handler rs.2 (h.2 hp) (hc hp)).exists_ok
    exact ⟨rs', hr, readHandlerInternal_erase hr, hl⟩
  · rw [if_neg hp, if_neg hp]
    exact ⟨rs, rfl, rfl, h⟩

theorem run_deliver_left : ∀ (chunks : List (List UInt8)) (rs : ReadSide × ClientSession),
    Left rs → Meets (WarheadDiscord.deliver e handler.toDataHandler) Fits rs chunks →
    ∃ rs', run (deliver e handler) rs chunks = .ok rs' ∧
      run (WarheadDiscord.deliver e handler.toDataHandler) rs chunks = .ok rs' ∧ Left rs' := by
  intro chunks
  induction chunks with
  | nil => intro rs h _; exact ⟨rs, rfl, rfl, h⟩
  | cons c cs ih =>
    intro rs h hm
    obtain ⟨rs₁, h₁, h₁', hl₁⟩ := deliver_left e handler h hm.1
    obtain ⟨rs₂, h₂, h₂', hl₂⟩ := ih rs₁ hl₁ (hm.2 rs₁ h₁')
    exact ⟨rs₂, by rw [run_cons_of_ok h₁, h₂], by rw [run_cons_of_ok h₁', h₂'], hl₂⟩

theorem new_sane : Sane false .new := by
  have hf := MessageBuffer.filled_resize (b := .new) rfl rfl
  exact ⟨(hf _).valid, (hf _).length_eq, (hf _).valid, rfl, (hf _).length_eq,
    MessageBuffer.new_valid, fun _ => rfl, rfl⟩

theorem start_left (isOpen : Bool) (s : ClientSession) :
    asyncRead isOpen .new = .ok (ReadSide.new.asyncRead isOpen) ∧
      Left (ReadSide.new.asyncRead isOpen, s) := by
  have h0 : active .new = 0 := rfl
  obtain ⟨r, hr, heq, hl⟩ :=
    (asyncRead_returns isOpen new_sane (fun h6 => by cases h6) h0).exists_ok
  rw [← heq]
  refine ⟨hr, ?_⟩
  rcases hl with ⟨hr, -⟩ | ⟨hw, -⟩
  · rw [hr]
    exact new_sane.left
  · exact ⟨by rw [hw.sane.readPending]; exact hw.sane, fun _ => hw⟩

/-- **The buffers are used safely.**  From the construction on, for every data handler that
does not throw and every sequence of chunks that fit in the space offered, no check fails:
the reader with its accesses checked returns, with what the reader of the program returns.
Then the buffers are in order, and if another read is outstanding, the read buffer is empty
and offers `READ_BLOCK_SIZE` bytes. -/
theorem reader_safe (e : Endian) (handler : TotalHandler) (s : ClientSession)
    (chunks : List (List UInt8))
    (hc : Meets (WarheadDiscord.deliver e handler.toDataHandler) Fits
      (ReadSide.new.asyncRead s.isOpen, s) chunks) :
    asyncRead s.isOpen .new = .ok (ReadSide.new.asyncRead s.isOpen) ∧
      ∃ r t, run (deliver e handler) (ReadSide.new.asyncRead s.isOpen, s) chunks = .ok (r, t) ∧
        run (WarheadDiscord.deliver e handler.toDataHandler)
          (ReadSide.new.asyncRead s.isOpen, s) chunks = .ok (r, t) ∧
        r.InOrder ∧ (r.readPending = true → r.readBuffer.getActiveSize = 0 ∧
          r.readBuffer.getRemainingSpace = readBlockSize) := by
  obtain ⟨hstart, hleft⟩ := start_left s.isOpen s
  obtain ⟨⟨r, t⟩, h₁, h₂, hl⟩ := run_deliver_left chunks _ hleft hc
  refine ⟨hstart, r, t, h₁, h₂, hl.1.inOrder, fun hp => ?_⟩
  have hw := hl.2 hp
  refine ⟨?_, ?_⟩
  · rw [MessageBuffer.getActiveSize, hw.wpos]
    exact Nat.zero_sub _
  · rw [MessageBuffer.getRemainingSpace, hw.wpos, hw.sane.readLength]
    rfl

/-- The handler takes everything; a frame with a payload of one byte comes in two chunks. -/
theorem reader_safe_split : ∃ r t, run (deliver .little fun _ s => (s, .ok))
    (ReadSide.new.asyncRead true, .new .sample) [[0, 0, 0, 3], [6, 0, 0]] = .ok (r, t) ∧
      r.InOrder := by
  have hopen : (ClientSession.new .sample).isOpen = true := by decide +kernel
  have hm : Meets (WarheadDiscord.deliver .little
      (TotalHandler.toDataHandler fun _ s => (s, .ok))) Fits
      (ReadSide.new.asyncRead (ClientSession.new .sample).isOpen, .new .sample)
      [[0, 0, 0, 3], [6, 0, 0]] := by
    obtain ⟨-, hl⟩ := start_left (ClientSession.new .sample).isOpen (.new .sample)
    refine ⟨hl.fits_of_le (by decide), fun rs h => ⟨?_, fun _ _ => trivial⟩⟩
    obtain ⟨rs', -, h', hl'⟩ := deliver_left .little (fun _ s => (s, .ok)) hl
      (hl.fits_of_le (show [(0 : UInt8), 0, 0, 3].length ≤ readBlockSize by decide))
    rw [h'] at h
    cases h
    exact hl'.fits_of_le (by decide)
  obtain ⟨-, r, t, h, -, ho, -⟩ := reader_safe .little (fun _ s => (s, .ok)) (.new .sample) _ hm
  rw [hopen] at h
  exact ⟨r, t, h, ho⟩

end Checked

end WarheadDiscord
