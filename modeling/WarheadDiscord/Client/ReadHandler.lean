import WarheadDiscord.Client.ReadSide
import WarheadDiscord.Client.WireFormat

/-!
# What one read does

Between two reads the buffers hold the bytes of a frame that is not complete
(`ReadSide.Waits`).  A read puts its bytes behind these, and `ReadHandler` hands
the frames that are now complete to the data handler, one after the other, until
one of them ends the session, or the header check refuses the next one, or what is
left is again the beginning of a frame.  `receive` says this on the bytes alone,
and `readHandlerInternal_refines` is the statement that the code does it, for
every handler and on a host of either byte order.

The three assertions of `ReadHandler` and `ReadHeaderHandler` do not fire and the
loop does not run out of fuel: `receive` has no such outcome.
-/

namespace WarheadDiscord

open Lib

/-! ### The abstract receiver -/

/-- The frames, one after the other, up to the first one whose result is not `Ok`. -/
def handleFrames (handler : DataHandler) : List Frame → ClientSession →
    Except Fault (List Frame × ClientSession × Option ReadDataHandlerResult)
  | [], s => .ok ([], s, none)
  | f :: fs, s =>
    match handler f.packet s with
    | .error fault => .error fault
    | .ok (s, .ok) =>
      match handleFrames handler fs s with
      | .error fault => .error fault
      | .ok (handed, s, stop) => .ok (f :: handed, s, stop)
    | .ok (s, result) => .ok ([f], s, some result)

/-- How a read ends: the session, and the bytes that the next read will continue
when there is one. -/
def readEnd (stop : Option ReadDataHandlerResult) (tail : Tail UInt8) (s : ClientSession) :
    ClientSession × Option (List UInt8) :=
  match stop, tail with
  | some .waitingForQuery, _ => (s, none)
  | some _, _ => (s.closeSocket, none)
  | none, .bad => (s.closeSocket, none)
  | none, .open rest => (s, if s.isOpen then some rest else none)

theorem readEnd_fst (stop : Option ReadDataHandlerResult) (tail : Tail UInt8)
    (s : ClientSession) :
    (readEnd stop tail s).1 = s ∨ (readEnd stop tail s).1 = s.closeSocket := by
  rw [readEnd.eq_def]
  split
  · exact .inl rfl
  · exact .inr rfl
  · exact .inr rfl
  · exact .inl rfl

/-- **What one read does**, on the bytes: the frames that were handed over, the
session, and the bytes that the next read continues. -/
def receive (handler : DataHandler) (pending chunk : List UInt8) (s : ClientSession) :
    Except Fault (List Frame × ClientSession × Option (List UInt8)) :=
  let parsed := discordFormat.parse (pending ++ chunk)
  match handleFrames handler parsed.1 s with
  | .error fault => .error fault
  | .ok (handed, s, stop) => .ok (handed, readEnd stop parsed.2 s)

section Receive

variable {handler : DataHandler} {pending chunk : List UInt8} {s : ClientSession}

theorem receive_of_more (h : lookFrame (pending ++ chunk) = .more) :
    receive handler pending chunk s =
      .ok ([], s, if s.isOpen then some (pending ++ chunk) else none) := by
  rw [receive, Format.parse_of_more (F := discordFormat) h]
  rfl

theorem receive_of_bad (h : lookFrame (pending ++ chunk) = .bad) :
    receive handler pending chunk s = .ok ([], s.closeSocket, none) := by
  rw [receive, Format.parse_of_bad (F := discordFormat) h]
  rfl

theorem receive_of_frame {f : Frame} {rest : List UInt8}
    (h : lookFrame (pending ++ chunk) = .frame f rest) :
    receive handler pending chunk s =
      match handler f.packet s with
      | .error fault => .error fault
      | .ok (s, .ok) =>
        match receive handler [] rest s with
        | .error fault => .error fault
        | .ok (handed, result) => .ok (f :: handed, result)
      | .ok (s, .waitingForQuery) => .ok ([f], s, none)
      | .ok (s, .error) => .ok ([f], s.closeSocket, none) := by
  rw [receive, Format.parse_of_frame (F := discordFormat) h]
  dsimp only
  rw [handleFrames]
  rcases handler f.packet s with fault | ⟨t, result⟩
  · rfl
  · cases result with
    | ok =>
      dsimp only
      rw [receive, List.nil_append]
      rcases handleFrames handler (discordFormat.parse rest).1 t with fault | ⟨fs, u, stop⟩
      · rfl
      · rfl
    | error => rfl
    | waitingForQuery => rfl

end Receive

/-! ### What the buffers hold -/

namespace ReadSide

/-- The header `h` is complete and rewritten, and `q` of the payload is there. -/
structure AtPayload (e : Endian) (r : ReadSide) (h q : List UInt8) : Prop where
  length : h.length = 6
  good : goodHeader h = true
  header : ∃ stored, r.headerBuffer.Filled 6 stored ∧ stored.length = 6 ∧
    UInt16.ofNat (hostLoad e (stored.drop 4)) = (headerOf h).cmd
  packet : r.packetBuffer.Filled (payloadSize h) q

/-- The buffers hold the bytes of a frame that is not complete. -/
inductive Holds (e : Endian) (r : ReadSide) : List UInt8 → Prop
  | header {p : List UInt8} : p.length < 6 → r.headerBuffer.Filled 6 p →
      r.packetBuffer.wpos = 0 → r.packetBuffer.rpos = 0 → Holds e r p
  | payload {h q : List UInt8} : r.AtPayload e h q → q.length < payloadSize h → Holds e r (h ++ q)

/-- `r'` has `c` left to read, and agrees with `r` in what a round does not touch. -/
structure Left (r r' : ReadSide) (c : List UInt8) : Prop where
  valid : r'.readBuffer.Valid
  active : r'.readBuffer.active = c
  length : r'.readBuffer.storage.length = r.readBuffer.storage.length
  handed : r'.handed = r.handed
  readPending : r'.readPending = r.readPending

theorem Left.self {r r' : ReadSide} {c : List UInt8} (h : Left r r' c) : Left r' r' c :=
  ⟨h.valid, h.active, rfl, rfl, rfl⟩

theorem Left.trans {r r₁ r₂ : ReadSide} {c c' : List UInt8} (h : Left r r₁ c)
    (g : Left r₁ r₂ c') : Left r r₂ c' :=
  ⟨g.valid, g.active, g.length.trans h.length, g.handed.trans h.handed,
    g.readPending.trans h.readPending⟩

/-- An `async_read_some` is outstanding, and the buffers hold the bytes. -/
structure Waits (e : Endian) (r : ReadSide) (bytes : List UInt8) : Prop where
  holds : r.Holds e bytes
  readBuffer : r.readBuffer.Filled readBlockSize []
  readPending : r.readPending = true

variable {e : Endian} {r : ReadSide} {p c h q : List UInt8}

theorem Holds.look : ∀ {p : List UInt8}, r.Holds e p → lookFrame p = .more := by
  intro p hp
  cases hp with
  | header hlt _ _ _ => exact lookFrame_of_short hlt
  | @payload h q ha hq =>
    have h6 := ha.length
    rw [lookFrame_of_good (by rw [List.length_append]; omega)
      (by rw [goodHeader_append (by omega), ha.good]), payloadSize_append (by omega),
      if_pos (by rw [List.length_append]; omega)]

/-- **The buffers say which bytes they hold.** -/
theorem Holds.unique : ∀ {p p' : List UInt8}, r.Holds e p → r.Holds e p' → p = p' := by
  have hfull : ∀ {p h q : List UInt8}, r.headerBuffer.Filled 6 p → p.length < 6 →
      ¬ r.AtPayload e h q := by
    intro p h q hf hlt ha
    obtain ⟨stored, hs, hlen, -⟩ := ha.header
    rw [← hs.active_eq, hf.active_eq] at hlen
    omega
  intro p p' hp hp'
  cases hp with
  | header hlt hf _ _ =>
    cases hp' with
    | header _ hf' _ _ => rw [← hf.active_eq, hf'.active_eq]
    | payload ha _ => exact absurd ha (hfull hf hlt)
  | @payload h q ha _ =>
    cases hp' with
    | header hlt hf _ _ => exact absurd ha (hfull hf hlt)
    | @payload h' q' ha' _ =>
      obtain ⟨stored, hs, -, hc⟩ := ha.header
      obtain ⟨stored', hs', -, hc'⟩ := ha'.header
      have hst : stored = stored' := by rw [← hs.active_eq, hs'.active_eq]
      have hq : q = q' := by rw [← ha.packet.active_eq, ha'.packet.active_eq]
      have hsize : payloadSize h = payloadSize h' := by
        rw [← ha.packet.length_eq, ha'.packet.length_eq]
      rw [goodHeader_ext ha.length ha'.length ha.good ha'.good hsize
        (by rw [← hc, ← hc', hst]), hq]

/-! ### A round, part by part -/

theorem Left.take_read (hl : Left r r c) (n : Nat) :
    r.readBuffer.fromReadPointer (min r.readBuffer.getActiveSize n) = c.take n := by
  have hlen := hl.valid.active_length
  rw [hl.active] at hlen
  rw [MessageBuffer.fromReadPointer_eq (Nat.min_le_left ..), hl.active, ← hlen]
  by_cases hn : n ≤ c.length
  · rw [Nat.min_eq_right hn]
  · rw [Nat.min_eq_left (by omega), List.take_length, List.take_of_length_le (by omega)]

theorem Left.drop_read (hl : Left r r c) (n : Nat) :
    (r.readBuffer.readCompleted (min r.readBuffer.getActiveSize n)).Valid ∧
      (r.readBuffer.readCompleted (min r.readBuffer.getActiveSize n)).active = c.drop n := by
  have hlen := hl.valid.active_length
  rw [hl.active] at hlen
  refine ⟨hl.valid.readCompleted (Nat.min_le_left ..), ?_⟩
  rw [MessageBuffer.active_readCompleted, hl.active, ← hlen]
  by_cases hn : n ≤ c.length
  · rw [Nat.min_eq_right hn]
  · rw [Nat.min_eq_left (by omega), List.drop_length, List.drop_of_length_le (by omega)]

/-- The header that `ReadHeaderHandler` reads is the one that the bytes say, whatever
the byte order of the host. -/
theorem hostHeader_eq (e : Endian) (h6 : h.length = 6) :
    (⟨UInt32.ofNat (hostLoad e (endianConvertReverse e (h.take 4))),
      UInt16.ofNat (hostLoad e (endianConvert e (h.drop 4)))⟩ : DiscordClientPktHeader) =
      headerOf h := by
  rw [hostLoad_endianConvertReverse, hostLoad_endianConvert, headerOf,
    List.take_of_length_le (l := h.drop 4) (by rw [List.length_drop]; omega)]

/-- **`ReadHeaderHandler` refuses a bad header**, -/
theorem readHeaderHandler_of_bad (hf : r.headerBuffer.Filled 6 h) (h6 : h.length = 6)
    (hg : goodHeader h = false) :
    ∃ b, r.readHeaderHandler e = .ok ({ r with headerBuffer := b }, false) := by
  have hact : r.headerBuffer.getActiveSize = 6 := by rw [hf.getActiveSize, h6]
  have hbytes := hf.fromReadPointer h6
  have hbad : (!(headerOf h).isValidSize || !(headerOf h).isValidOpcode) = true := by
    rw [goodHeader] at hg
    rw [← Bool.not_and, hg]
    rfl
  rw [readHeaderHandler, if_neg (by rw [hact]; decide)]
  simp only [DiscordClientPktHeader.sizeOf, Nat.reduceAdd, hbytes, hostHeader_eq e h6]
  rw [if_pos hbad]
  exact ⟨_, rfl⟩

/-- **and makes room for the payload of a good one.** -/
theorem readHeaderHandler_of_good (hf : r.headerBuffer.Filled 6 h) (h6 : h.length = 6)
    (hw : r.packetBuffer.wpos = 0) (hr : r.packetBuffer.rpos = 0) (hg : goodHeader h = true) :
    ∃ b b', r.readHeaderHandler e =
        .ok ({ r with headerBuffer := b, packetBuffer := b' }, true) ∧
      AtPayload e { r with headerBuffer := b, packetBuffer := b' } h [] := by
  have hact : r.headerBuffer.getActiveSize = 6 := by rw [hf.getActiveSize, h6]
  have hbytes := hf.fromReadPointer h6
  have hvalid := hg
  rw [goodHeader, Bool.and_eq_true] at hvalid
  have hgood : ¬ (!(headerOf h).isValidSize || !(headerOf h).isValidOpcode) = true := by
    rw [hvalid.1, hvalid.2]
    decide
  have hsize : ((headerOf h).size - 2).toNat = payloadSize h := by
    have h2 := ((DiscordClientPktHeader.isValidSize_iff _).mp hvalid.1).1
    rw [UInt32.toNat_sub_of_le _ _ (show (2 : UInt32) ≤ _ from UInt32.le_iff_toNat_le.mpr h2)]
    rfl
  have hread : UInt32.ofNat (hostLoad e (endianConvertReverse e (h.take 4))) = (headerOf h).size :=
    congrArg DiscordClientPktHeader.size (hostHeader_eq e h6)
  have hcmd : UInt16.ofNat (hostLoad e (endianConvert e (h.drop 4))) = (headerOf h).cmd :=
    congrArg DiscordClientPktHeader.cmd (hostHeader_eq e h6)
  have hstored : (hostStore e 4 (payloadSize h) ++ endianConvert e (h.drop 4)).length = 6 := by
    rw [List.length_append, hostStore_length, endianConvert_length, List.length_drop, h6]
  rw [readHeaderHandler, if_neg (by rw [hact]; decide)]
  simp only [DiscordClientPktHeader.sizeOf, Nat.reduceAdd, hbytes, hostHeader_eq e h6]
  rw [if_neg hgood]
  simp only [hread, hsize]
  refine ⟨_, _, rfl, h6, hg, ⟨_, hf.overwrite h6 hstored, hstored, ?_⟩,
    MessageBuffer.filled_resize hw hr _⟩
  rw [List.drop_left' (hostStore_length e 4 _), hcmd]

/-- What `receiveHeader` does to the buffers, whether the header is complete then or not. -/
theorem receiveHeader_read (hl : Left r r c) (hf : r.headerBuffer.Filled 6 p) (hp : p.length < 6) :
    (r.headerBuffer.write (r.readBuffer.fromReadPointer
        (min r.readBuffer.getActiveSize r.headerBuffer.getRemainingSpace))).Filled 6
      (p ++ c.take (6 - p.length)) := by
  rw [hf.getRemainingSpace, hl.take_read]
  exact hf.write _ (by rw [List.length_take]; omega)

theorem receiveHeader_of_short (hl : Left r r c) (hf : r.headerBuffer.Filled 6 p)
    (hc : p.length + c.length < 6) :
    ∃ r', r.receiveHeader e = .ok (r', .incomplete) ∧ Left r r' [] ∧
      r'.headerBuffer.Filled 6 (p ++ c) ∧ r'.packetBuffer = r.packetBuffer := by
  have hrem := hf.getRemainingSpace
  have hw := receiveHeader_read hl hf (by omega)
  have hd := hl.drop_read r.headerBuffer.getRemainingSpace
  rw [hrem] at hw hd
  rw [List.take_of_length_le (by omega)] at hw
  rw [List.drop_of_length_le (by omega)] at hd
  have hdone := hd.1.active_eq_nil_iff.mp hd.2
  rw [receiveHeader, if_pos (by omega)]
  dsimp only
  rw [hrem, if_pos (by rw [hw.getRemainingSpace, List.length_append]; omega),
    if_neg (by rw [hdone]; decide)]
  exact ⟨_, rfl, ⟨hd.1, hd.2, rfl, rfl, rfl⟩, hw, rfl⟩

/-- The header is complete: it is refused, or the payload is next. -/
theorem receiveHeader_of_long (hl : Left r r c) (hf : r.headerBuffer.Filled 6 p)
    (hp : p.length < 6) (hc : 6 ≤ p.length + c.length) (hw : r.packetBuffer.wpos = 0)
    (hr0 : r.packetBuffer.rpos = 0) :
    ∃ r', Left r r' (c.drop (6 - p.length)) ∧
      (goodHeader (p ++ c.take (6 - p.length)) = false →
        r.receiveHeader e = .ok (r', .malformed)) ∧
      (goodHeader (p ++ c.take (6 - p.length)) = true →
        r.receiveHeader e = .ok (r', .complete) ∧
          r'.AtPayload e (p ++ c.take (6 - p.length)) []) := by
  have hrem := hf.getRemainingSpace
  have hfull := receiveHeader_read hl hf hp
  have hd := hl.drop_read r.headerBuffer.getRemainingSpace
  rw [hrem] at hfull hd
  have h6 : (p ++ c.take (6 - p.length)).length = 6 := by
    rw [List.length_append, List.length_take]
    omega
  rw [receiveHeader, if_pos (by omega)]
  dsimp only
  rw [hrem, if_neg (by rw [hfull.getRemainingSpace, h6]; omega)]
  generalize r.headerBuffer.write _ = headerBuffer at hfull ⊢
  have hlen : (r.readBuffer.readCompleted
      (min r.readBuffer.getActiveSize (6 - p.length))).storage.length =
        r.readBuffer.storage.length := rfl
  generalize r.readBuffer.readCompleted _ = readBuffer at hd hlen ⊢
  cases hg : goodHeader (p ++ c.take (6 - p.length)) with
  | false =>
    obtain ⟨b, hb⟩ := readHeaderHandler_of_bad (e := e)
      (r := { r with headerBuffer := headerBuffer, readBuffer := readBuffer }) hfull h6 hg
    rw [hb]
    exact ⟨{ r with headerBuffer := b, readBuffer := readBuffer },
      ⟨hd.1, hd.2, hlen, rfl, rfl⟩, fun _ => rfl, fun h => by cases h⟩
  | true =>
    obtain ⟨b, b', hb, ha⟩ := readHeaderHandler_of_good (e := e)
      (r := { r with headerBuffer := headerBuffer, readBuffer := readBuffer }) hfull h6 hw hr0 hg
    rw [hb]
    exact ⟨{ r with headerBuffer := b, packetBuffer := b', readBuffer := readBuffer },
      ⟨hd.1, hd.2, hlen, rfl, rfl⟩, fun h => (by cases h), fun _ => ⟨rfl, ha⟩⟩

theorem receivePayload_of_short (hl : Left r r c) (ha : r.AtPayload e h q)
    (hc : q.length + c.length < payloadSize h) :
    ∃ r', r.receivePayload = .ok (r', false) ∧ Left r r' [] ∧ r'.AtPayload e h (q ++ c) := by
  have hrem := ha.packet.getRemainingSpace
  have hw := ha.packet.write c (by omega)
  have htake := hl.take_read (payloadSize h - q.length)
  have hd := hl.drop_read (payloadSize h - q.length)
  rw [List.take_of_length_le (by omega)] at htake
  rw [List.drop_of_length_le (by omega)] at hd
  have hdone := hd.1.active_eq_nil_iff.mp hd.2
  rw [receivePayload, if_pos (by omega)]
  dsimp only
  rw [hrem, htake, if_pos (by rw [hw.getRemainingSpace, List.length_append]; omega),
    if_neg (by rw [hdone]; decide)]
  exact ⟨_, rfl, ⟨hd.1, hd.2, rfl, rfl, rfl⟩, ha.length, ha.good, ha.header, hw⟩

theorem receivePayload_of_long (hl : Left r r c) (ha : r.AtPayload e h q)
    (hc : payloadSize h ≤ q.length + c.length) :
    ∃ r', r.receivePayload = .ok (r', true) ∧ Left r r' (c.drop (payloadSize h - q.length)) ∧
      r'.AtPayload e h (q ++ c.take (payloadSize h - q.length)) := by
  have hrem := ha.packet.getRemainingSpace
  have hle := ha.packet.length_le
  rw [receivePayload]
  by_cases h0 : 0 < payloadSize h - q.length
  · have hw := ha.packet.write (c.take (payloadSize h - q.length))
      (by rw [List.length_take]; omega)
    have htake := hl.take_read (payloadSize h - q.length)
    have hd := hl.drop_read (payloadSize h - q.length)
    rw [if_pos (by omega)]
    dsimp only
    rw [hrem, htake,
      if_neg (by rw [hw.getRemainingSpace, List.length_append, List.length_take]; omega)]
    exact ⟨_, rfl, ⟨hd.1, hd.2, rfl, rfl, rfl⟩, ha.length, ha.good, ha.header, hw⟩
  · have hz : payloadSize h - q.length = 0 := by omega
    rw [if_neg (by omega), hz, List.drop_zero, List.take_zero, List.append_nil]
    exact ⟨r, rfl, hl, ha⟩

/-- **The packet that is moved out is the frame**, and the buffers are ready for the
next one. -/
theorem takePacket_of_full (ha : r.AtPayload e h q) (hq : q.length = payloadSize h) :
    (r.takePacket e).1 = Frame.packet ⟨(headerOf h).cmd, q⟩ ∧
      (r.takePacket e).2.handed = r.handed ++ [⟨(headerOf h).cmd, q⟩] ∧
      Holds e { (r.takePacket e).2 with headerBuffer := r.headerBuffer.reset } [] := by
  obtain ⟨stored, hf, hlen, hcmd⟩ := ha.header
  have hst := ha.packet.storage_eq hq
  have hpkt : (r.takePacket e).1 = Frame.packet ⟨(headerOf h).cmd, q⟩ := by
    unfold takePacket
    dsimp only
    rw [hf.fromReadPointer hlen, hcmd]
    show DiscordPacket.mk ⟨0, 0, r.packetBuffer.storage⟩ _ = _
    rw [hst]
    rfl
  refine ⟨hpkt, ?_, .header (by decide) hf.reset rfl rfl⟩
  have hhanded : (r.takePacket e).2.handed = r.handed ++ [(r.takePacket e).1.frame] := rfl
  rw [hhanded, hpkt, Frame.packet_frame]

theorem asyncRead_waits (hh : r.Holds e p) (hl : Left r r [])
    (hlen : r.readBuffer.storage.length = readBlockSize) : (r.asyncRead true).Waits e p := by
  have hn := hl.valid.filled_normalize hl.active
  rw [hlen] at hn
  have hfree : 0 < r.readBuffer.normalize.getRemainingSpace := by
    rw [hn.getRemainingSpace]
    decide
  rw [asyncRead, if_neg (by decide), MessageBuffer.ensureFreeSpace_of_pos hfree]
  refine ⟨?_, hn, rfl⟩
  cases hh with
  | header hlt hf hw hr => exact .header hlt hf hw hr
  | payload ha hq => exact .payload ⟨ha.length, ha.good, ha.header, ha.packet⟩ hq

theorem new_waits (e : Endian) : (new.asyncRead true).Waits e [] := by
  have hf := MessageBuffer.filled_resize (b := .new) rfl rfl readBlockSize
  refine asyncRead_waits (.header (by decide) ?_ rfl rfl) ?_ hf.length_eq
  · exact MessageBuffer.filled_resize rfl rfl _
  · exact ⟨hf.valid, hf.active_eq, rfl, rfl, rfl⟩

/-! ### The rounds -/

theorem receiveHeader_cases (hh : r.Holds e p) (hl : Left r r c) :
    (∃ r', r.receiveHeader e = .ok (r', .incomplete) ∧ lookFrame (p ++ c) = .more ∧
      Left r r' [] ∧ r'.Holds e (p ++ c)) ∨
    (∃ r' c', r.receiveHeader e = .ok (r', .malformed) ∧ lookFrame (p ++ c) = .bad ∧
      Left r r' c') ∨
    (∃ r' h q c', r.receiveHeader e = .ok (r', .complete) ∧ p ++ c = h ++ (q ++ c') ∧
      Left r r' c' ∧ r'.AtPayload e h q) := by
  cases hh with
  | header hp hf hw hr =>
    by_cases hc : p.length + c.length < 6
    · obtain ⟨r', hr', hl', hf', hb'⟩ := receiveHeader_of_short (e := e) hl hf hc
      have hlen : (p ++ c).length < 6 := by rw [List.length_append]; exact hc
      exact .inl ⟨r', hr', lookFrame_of_short hlen, hl',
        .header hlen hf' (by rw [hb', hw]) (by rw [hb', hr])⟩
    · obtain ⟨r', hl', hbad, hgood⟩ := receiveHeader_of_long (e := e) hl hf hp (by omega) hw hr
      have h6 : (p ++ c.take (6 - p.length)).length = 6 := by
        rw [List.length_append, List.length_take]
        omega
      have hsplit : p ++ c = p ++ c.take (6 - p.length) ++ c.drop (6 - p.length) := by
        rw [List.append_assoc, List.take_append_drop]
      cases hg : goodHeader (p ++ c.take (6 - p.length)) with
      | false =>
        refine .inr (.inl ⟨r', _, hbad hg, ?_, hl'⟩)
        rw [hsplit]
        exact lookFrame_of_bad (by rw [List.length_append]; omega)
          (by rw [goodHeader_append (by omega), hg])
      | true =>
        obtain ⟨hok, ha⟩ := hgood hg
        exact .inr (.inr ⟨r', _, [], _, hok, by rw [List.nil_append]; exact hsplit, hl', ha⟩)
  | @payload h q ha hq =>
    obtain ⟨stored, hf, hlen, -⟩ := ha.header
    refine .inr (.inr ⟨r, h, q, c, ?_, List.append_assoc .., hl, ha⟩)
    rw [receiveHeader, if_neg (by rw [hf.getRemainingSpace, hlen]; omega)]

theorem AtPayload.look (ha : r.AtPayload e h q) (hc : payloadSize h ≤ q.length + c.length) :
    lookFrame (h ++ (q ++ c)) =
      .frame ⟨(headerOf h).cmd, q ++ c.take (payloadSize h - q.length)⟩
        (c.drop (payloadSize h - q.length)) := by
  have h6 := ha.length
  have hle := ha.packet.length_le
  rw [lookFrame_of_good (by rw [List.length_append]; omega)
      (by rw [goodHeader_append (by omega), ha.good]), payloadSize_append (by omega),
    headerOf_append (by omega), if_neg (by simp only [List.length_append]; omega),
    ← List.drop_drop, List.drop_left' h6, List.take_append, List.take_of_length_le hle,
    List.drop_append, List.drop_of_length_le hle, List.nil_append]

theorem AtPayload.look_more (ha : r.AtPayload e h q) (hc : q.length + c.length < payloadSize h) :
    lookFrame (h ++ (q ++ c)) = .more := by
  have h6 := ha.length
  rw [lookFrame_of_good (by rw [List.length_append]; omega)
      (by rw [goodHeader_append (by omega), ha.good]), payloadSize_append (by omega),
    if_pos (by simp only [List.length_append]; omega)]

/-- The code ends as the bytes say. -/
def Refines (e : Endian) (r : ReadSide) (result : Except Fault (ReadSide × ClientSession)) :
    Except Fault (List Frame × ClientSession × Option (List UInt8)) → Prop
  | .error fault => result = .error fault
  | .ok (frames, s, next) => ∃ r', result = .ok (r', s) ∧ r'.handed = r.handed ++ frames ∧
      match next with
      | some rest => r'.Waits e rest
      | none => r'.readPending = r.readPending

/-- The buffers after a frame was moved out, as the next round finds them. -/
def nextRound (e : Endian) (r : ReadSide) : ReadSide :=
  { (r.takePacket e).2 with headerBuffer := r.headerBuffer.reset }

/-- **What one round does, said of the bytes.** -/
theorem round_cases (hh : r.Holds e p) (hl : Left r r c) :
    (lookFrame (p ++ c) = .more ∧ ∃ r', Left r r' [] ∧ r'.Holds e (p ++ c) ∧
      (r.receiveHeader e = .ok (r', .incomplete) ∨
        ∃ r₁, r.receiveHeader e = .ok (r₁, .complete) ∧ r₁.receivePayload = .ok (r', false))) ∨
    (lookFrame (p ++ c) = .bad ∧ ∃ r' c', Left r r' c' ∧
      r.receiveHeader e = .ok (r', .malformed)) ∨
    (∃ f rest, lookFrame (p ++ c) = .frame f rest ∧ ∃ r₁ r',
      r.receiveHeader e = .ok (r₁, .complete) ∧ r₁.receivePayload = .ok (r', true) ∧
      Left r r' rest ∧ (r'.takePacket e).1 = f.packet ∧
      (r'.nextRound e).handed = r'.handed ++ [f] ∧ (r'.nextRound e).Holds e []) := by
  rcases receiveHeader_cases hh hl with ⟨r₁, h₁, hlook, hl₁, hh₁⟩ | ⟨r₁, c₁, h₁, hlook, hl₁⟩ |
    ⟨r₁, h, q, c₁, h₁, hsplit, hl₁, ha₁⟩
  · exact .inl ⟨hlook, r₁, hl₁, hh₁, .inl h₁⟩
  · exact .inr (.inl ⟨hlook, r₁, c₁, hl₁, h₁⟩)
  · have hl₁' := hl₁.self
    have hle := ha₁.packet.length_le
    rw [hsplit]
    by_cases hp : q.length + c₁.length < payloadSize h
    · obtain ⟨r₂, h₂, hl₂, ha₂⟩ := receivePayload_of_short hl₁' ha₁ hp
      exact .inl ⟨ha₁.look_more hp, r₂, hl₁.trans hl₂,
        .payload ha₂ (by rw [List.length_append]; exact hp), .inr ⟨r₁, h₁, h₂⟩⟩
    · obtain ⟨r₂, h₂, hl₂, ha₂⟩ := receivePayload_of_long hl₁' ha₁ (by omega)
      have hfull : (q ++ c₁.take (payloadSize h - q.length)).length = payloadSize h := by
        rw [List.length_append, List.length_take]
        omega
      obtain ⟨hpkt, hhanded, hholds⟩ := takePacket_of_full ha₂ hfull
      exact .inr (.inr ⟨_, _, ha₁.look (by omega), r₁, r₂, h₁, h₂, hl₁.trans hl₂, hpkt, hhanded,
        hholds⟩)

variable {handler : DataHandler}

/-- **The rounds of `ReadHandler` do what the bytes say.**  The induction is on the
fuel; a round that hands a frame over has taken a byte off the read buffer. -/
theorem readHandlerLoop_refines : ∀ (fuel : Nat) (r : ReadSide) (s : ClientSession)
    (p c : List UInt8), r.Holds e p → Left r r c →
    r.readBuffer.storage.length = readBlockSize → c.length < fuel →
    Refines e r (readHandlerLoop e handler fuel r s) (receive handler p c s) := by
  intro fuel
  induction fuel with
  | zero => intro _ _ _ _ _ _ _ h; exact absurd h (Nat.not_lt_zero _)
  | succ fuel ih =>
    intro r s p c hh hl hlen hc
    have hmore : ∀ r', lookFrame (p ++ c) = .more → Left r r' [] → r'.Holds e (p ++ c) →
        Refines e r (.ok (r'.asyncRead s.isOpen, s)) (receive handler p c s) := by
      intro r' hlook hl' hh'
      rw [receive_of_more hlook]
      cases hopen : s.isOpen with
      | true =>
        refine ⟨_, rfl, by rw [List.append_nil]; exact hl'.handed, ?_⟩
        exact asyncRead_waits hh' hl'.self (by rw [hl'.length, hlen])
      | false => exact ⟨_, rfl, by rw [List.append_nil]; exact hl'.handed, hl'.readPending⟩
    have hsize := hl.valid.active_length
    rw [hl.active] at hsize
    rw [readHandlerLoop]
    by_cases h0 : r.readBuffer.getActiveSize > 0
    · rw [if_pos h0]
      rcases round_cases hh hl with ⟨hlook, r', hl', hh', h₁ | ⟨r₁, h₁, h₂⟩⟩ |
        ⟨hlook, r', c', hl', h₁⟩ | ⟨f, rest, hlook, r₁, r', h₁, h₂, hl', hpkt, hhanded, hholds⟩
      · rw [h₁]
        exact hmore r' hlook hl' hh'
      · rw [h₁]
        dsimp only
        rw [h₂]
        exact hmore r' hlook hl' hh'
      · rw [h₁, receive_of_bad hlook]
        exact ⟨_, rfl, by rw [List.append_nil]; exact hl'.handed, hl'.readPending⟩
      · have hlt := lookFrame_rest_lt hh.look hlook
        have hstop : ∀ t : ClientSession,
            Refines e r (.ok (r'.nextRound e, t)) (.ok ([f], t, none)) :=
          fun t => ⟨_, rfl, by rw [hhanded, hl'.handed], hl'.readPending⟩
        rw [h₁, receive_of_frame hlook]
        dsimp only
        rw [h₂]
        dsimp only
        rw [hpkt]
        rcases handler f.packet s with fault | ⟨t, result⟩
        · rfl
        · cases result with
          | ok =>
            have hrec := ih (r'.nextRound e) t [] rest hholds
              ⟨hl'.valid, hl'.active, rfl, rfl, rfl⟩ (hl'.length.trans hlen) (by omega)
            dsimp only
            show Refines e r (readHandlerLoop e handler fuel (r'.nextRound e) t) _
            generalize receive handler [] rest t = received at hrec ⊢
            rcases received with fault | ⟨frames, u, next⟩
            · exact hrec
            · obtain ⟨r'', hr'', hh'', hn''⟩ := hrec
              refine ⟨r'', hr'', by rw [hh'', hhanded, hl'.handed, List.append_assoc]; rfl, ?_⟩
              cases next with
              | none => exact hn''.trans hl'.readPending
              | some next => exact hn''
          | error => exact hstop _
          | waitingForQuery => exact hstop _
    · rw [if_neg h0]
      obtain rfl : c = [] := List.length_eq_zero_iff.mp (by omega)
      rw [List.append_nil] at hmore
      exact hmore r hh.look hl hh

/-- **What one read does**: the frames that its bytes complete are handed over, and
the next read, if there is one, finds the buffers in order. -/
theorem readHandlerInternal_refines (handler : DataHandler) {s : ClientSession} (h : r.Waits e p)
    (hc : c.length ≤ readBlockSize) :
    Refines e { r with readPending := false } (readHandlerInternal e handler c r s)
      (receive handler p c s) := by
  have hw := h.readBuffer.write c (by simpa using hc)
  rw [List.nil_append] at hw
  refine readHandlerLoop_refines _ _ _ _ _ ?_ ⟨hw.valid, hw.active_eq, rfl, rfl, rfl⟩ hw.length_eq
    ?_
  · cases h.holds with
    | header hlt hf hw hr => exact .header hlt hf hw hr
    | payload ha hq => exact .payload ⟨ha.length, ha.good, ha.header, ha.packet⟩ hq
  · show c.length < (r.readBuffer.write c).getActiveSize + 1
    rw [hw.getActiveSize]
    exact Nat.lt_succ_self _

end ReadSide

end WarheadDiscord
