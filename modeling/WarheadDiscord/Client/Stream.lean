import WarheadDiscord.Client.ReadHandler
import WarheadDiscord.Client.SendPacket
import WarheadDiscord.Lib.Machine

/-!
# Streams that are cut into reads

`ReadHandler.lean` says what one read does.  Here the reads follow one another:
each of them takes the next chunk of a stream, as long as the session asks for
more.

* `run_deliver_reading`: after any chunks the data handler was given the frames of
  the bytes so far, no more and no fewer (`Reading`).
* `readHandler_parses`: the same against the one-shot parser, for every handler that
  keeps the session open.
* `sentPackets_parse`: what `SendPacket` queues for a list of packets is read back as
  this list, however it is cut and on a host of either byte order.
-/

namespace WarheadDiscord

open Lib ReadSide

/-- The next chunk arrives, if a read is outstanding. -/
def deliver (e : Endian) (handler : DataHandler) (rs : ReadSide × ClientSession)
    (chunk : List UInt8) : Except Fault (ReadSide × ClientSession) :=
  if rs.1.readPending then readHandlerInternal e handler chunk rs.1 rs.2 else .ok rs

/-- A handler that always returns `Ok` and leaves the socket open. -/
def KeepsOpen (handler : DataHandler) : Prop :=
  ∀ packet s, s.isOpen = true → ∃ t, handler packet s = .ok (t, .ok) ∧ t.isOpen = true

/-- The bytes so far were dealt with: their frames are handed over, and the read side
waits for what continues them, unless they were refused. -/
def Reading (e : Endian) (stream : List UInt8) (rs : ReadSide × ClientSession) : Prop :=
  rs.1.handed = (discordFormat.parse stream).1 ∧
    match (discordFormat.parse stream).2 with
    | .open rest => rs.1.Waits e rest ∧ rs.2.isOpen = true
    | .bad => rs.1.readPending = false ∧ rs.2.socket.closed = true

variable {e : Endian} {handler : DataHandler}

theorem handleFrames_of_keepsOpen (hk : KeepsOpen handler) : ∀ (fs : List Frame)
    (s : ClientSession), s.isOpen = true →
    ∃ t, handleFrames handler fs s = .ok (fs, t, none) ∧ t.isOpen = true := by
  intro fs
  induction fs with
  | nil => intro s hs; exact ⟨s, rfl, hs⟩
  | cons f fs ih =>
    intro s hs
    obtain ⟨t, ht, hopen⟩ := hk f.packet s hs
    obtain ⟨u, hu, hopen'⟩ := ih t hopen
    exact ⟨u, by rw [handleFrames, ht]; dsimp only; rw [hu], hopen'⟩

theorem reading_start (e : Endian) {s : ClientSession} (hs : s.isOpen = true) :
    Reading e [] (ReadSide.new.asyncRead true, s) :=
  ⟨rfl, new_waits e, hs⟩

theorem deliver_reading (hk : KeepsOpen handler) {stream chunk : List UInt8}
    {rs : ReadSide × ClientSession} (h : Reading e stream rs)
    (hc : chunk.length ≤ readBlockSize) :
    ∃ rs', deliver e handler rs chunk = .ok rs' ∧ Reading e (stream ++ chunk) rs' := by
  obtain ⟨hh, ht⟩ := h
  cases htail : (discordFormat.parse stream).2 with
  | bad =>
    rw [htail] at ht
    refine ⟨rs, by rw [deliver, ht.1]; rfl, ?_⟩
    rw [Reading, Format.parse_append_bad _ htail, htail]
    exact ⟨hh, ht⟩
  | «open» rest =>
    rw [htail] at ht
    obtain ⟨hw, hopen⟩ := ht
    have href := readHandlerInternal_refines handler (s := rs.2) hw hc
    obtain ⟨t, hfs, hopen'⟩ := handleFrames_of_keepsOpen hk
      (discordFormat.parse (rest ++ chunk)).1 rs.2 hopen
    have hp := Format.parse_append _ htail chunk
    rw [receive, hfs] at href
    dsimp only at href
    rw [deliver, if_pos hw.readPending]
    simp only [Reading, hp]
    cases htail' : (discordFormat.parse (rest ++ chunk)).2 with
    | bad =>
      rw [htail', readEnd] at href
      obtain ⟨r', hr', hhanded, hnext⟩ := href
      refine ⟨_, hr', ?_, hnext, Socket.closeSocket_closed _⟩
      rw [hhanded]
      exact congrArg (· ++ _) hh
    | «open» rest' =>
      rw [htail', readEnd, hopen', if_pos rfl] at href
      obtain ⟨r', hr', hhanded, hnext⟩ := href
      refine ⟨_, hr', ?_, hnext, hopen'⟩
      rw [hhanded]
      exact congrArg (· ++ _) hh

theorem run_deliver_reading (hk : KeepsOpen handler) : ∀ (chunks : List (List UInt8))
    (stream : List UInt8) (rs : ReadSide × ClientSession), Reading e stream rs →
    (∀ c ∈ chunks, c.length ≤ readBlockSize) →
    ∃ rs', run (deliver e handler) rs chunks = .ok rs' ∧
      Reading e (stream ++ chunks.flatten) rs' := by
  intro chunks
  induction chunks with
  | nil =>
    intro stream rs h _
    exact ⟨rs, rfl, by rw [List.flatten_nil, List.append_nil]; exact h⟩
  | cons c cs ih =>
    intro stream rs h hc
    obtain ⟨rs₁, h₁, hr₁⟩ := deliver_reading hk h (hc c (by simp))
    obtain ⟨rs₂, h₂, hr₂⟩ := ih _ rs₁ hr₁ fun d hd => hc d (by simp [hd])
    refine ⟨rs₂, by rw [run_cons_of_ok h₁]; exact h₂, ?_⟩
    rw [List.flatten_cons, ← List.append_assoc]
    exact hr₂

/-- **`ReadHandler` is the one-shot parser.**  After each chunk the frames handed over are
those of the bytes so far; the session is closed when these have a bad header, and
otherwise asks for more. -/
theorem readHandler_parses (e : Endian) (handler : DataHandler) (hk : KeepsOpen handler)
    (s : ClientSession) (hs : s.isOpen = true) (chunks : List (List UInt8))
    (hc : ∀ c ∈ chunks, c ≠ [] ∧ c.length ≤ readBlockSize) (pre : List (List UInt8))
    (hpre : pre <+: chunks) :
    ∃ r t, run (deliver e handler) (ReadSide.new.asyncRead true, s) pre = .ok (r, t) ∧
      r.handed = (discordFormat.parse pre.flatten).1 ∧
      ((discordFormat.parse pre.flatten).2 = .bad →
        t.socket.closed = true ∧ r.readPending = false) ∧
      (∀ rest, (discordFormat.parse pre.flatten).2 = .open rest →
        t.isOpen = true ∧ r.readPending = true) := by
  obtain ⟨⟨r, t⟩, hrun, hh, ht⟩ := run_deliver_reading (e := e) hk pre [] _ (reading_start e hs)
    fun c hcm => (hc c (hpre.subset hcm)).2
  rw [List.nil_append] at hh ht
  refine ⟨r, t, hrun, hh, fun hb => ?_, fun rest ho => ?_⟩
  · rw [hb] at ht
    exact ⟨ht.2, ht.1⟩
  · rw [ho] at ht
    exact ⟨ht.2, ht.1.readPending⟩

/-- The handler of the examples. -/
def acceptAll : DataHandler := fun _ s => .ok (s, .ok)

theorem acceptAll_keepsOpen : KeepsOpen acceptAll := fun _ s h => ⟨s, rfl, h⟩

/-- A frame with an empty payload whose header comes in two chunks, and then a bad header. -/
theorem readHandler_parses_split :
    ∃ r t, run (deliver .big acceptAll) (ReadSide.new.asyncRead true, .new .sample)
        [[0, 0, 0, 2], [7, 0, 0, 0, 0, 1, 7, 0]] = .ok (r, t) ∧
      r.handed = [⟨7, []⟩] ∧ t.socket.closed = true := by
  obtain ⟨r, t, hrun, hh, hbad, -⟩ := readHandler_parses .big acceptAll acceptAll_keepsOpen
    (.new .sample) (by decide +kernel) [[0, 0, 0, 2], [7, 0, 0, 0, 0, 1, 7, 0]] (by decide)
    [[0, 0, 0, 2], [7, 0, 0, 0, 0, 1, 7, 0]] List.prefix_rfl
  exact ⟨r, t, hrun, by rw [hh]; decide, (hbad (by decide)).1⟩

/-! ### What was sent -/

namespace ClientSession

theorem foldl_sendPacket_queued (origin : Origin) : ∀ (ps : List DiscordPacket)
    (s : ClientSession), s.isOpen = true →
    (ps.foldl (sendPacket origin) s).socket.queued =
      s.socket.queued ++ ps.flatMap DiscordPacket.wire := by
  intro ps
  induction ps with
  | nil => intro s _; simp
  | cons p ps ih =>
    intro s hs
    rw [List.foldl_cons, ih _ (by rw [sendPacket_isOpen, hs]), sendPacket_queued hs,
      List.flatMap_cons, List.append_assoc]

end ClientSession

/-- **The reader parses back what the writer wrote.**  The bytes that `SendPacket` queues
for a list of packets, cut in any way and on a host of either byte order, are handed to the
data handler as this list. -/
theorem sentPackets_parse (origin : Origin) (packets : List DiscordPacket)
    (hp : ∀ p ∈ packets, p.opcode.toNat < 8 ∧ p.size ≤ 9997) (s : ClientSession)
    (hs : s.isOpen = true) :
    ∃ bytes, (packets.foldl (ClientSession.sendPacket origin) s).socket.queued =
        s.socket.queued ++ bytes ∧
      ∀ (e : Endian) (handler : DataHandler) (receiver : ClientSession)
        (chunks : List (List UInt8)), KeepsOpen handler → receiver.isOpen = true →
        chunks.flatten = bytes → (∀ c ∈ chunks, c.length ≤ readBlockSize) →
        ∃ r t, run (deliver e handler) (ReadSide.new.asyncRead true, receiver) chunks =
            .ok (r, t) ∧
          r.handed = packets.map DiscordPacket.frame ∧ t.isOpen = true ∧ r.Waits e [] := by
  refine ⟨_, ClientSession.foldl_sendPacket_queued origin packets s hs, ?_⟩
  intro e handler receiver chunks hk hr hflat hc
  obtain ⟨⟨r, t⟩, hrun, hh, ht⟩ := run_deliver_reading (e := e) hk chunks [] _
    (reading_start e hr) hc
  have hwire : packets.flatMap DiscordPacket.wire =
      (packets.map DiscordPacket.frame).flatMap Frame.wire ++ [] := by
    rw [List.append_nil, List.flatMap_map]
    rfl
  have hparse := Format.parse_write discordFormat_writes [] (packets.map DiscordPacket.frame)
    fun f hf => by
      obtain ⟨p, hpm, rfl⟩ := List.mem_map.mp hf
      exact hp p hpm
  rw [List.nil_append, hflat, hwire, hparse] at hh ht
  refine ⟨r, t, hrun, ?_, ht.2, ht.1⟩
  rw [hh]
  exact List.append_nil _

/-- Two packets, cut inside the header of the second one. -/
theorem sentPackets_parse_cut : ∃ r t,
    run (deliver .big acceptAll) (ReadSide.new.asyncRead true, .new .sample)
      [[0, 0, 0, 2, 1, 0, 0], [0, 0, 3, 3, 0, 9]] = .ok (r, t) ∧
      r.handed = [⟨1, []⟩, ⟨3, [9]⟩] := by
  obtain ⟨bytes, hb, hparse⟩ := sentPackets_parse .application [⟨⟨0, 0, []⟩, 1⟩, ⟨⟨0, 1, [9]⟩, 3⟩]
    (by decide) (.new .sample) (by decide +kernel)
  have hq : ([⟨⟨0, 0, []⟩, 1⟩, ⟨⟨0, 1, [9]⟩, 3⟩].foldl (ClientSession.sendPacket .application)
      (.new .sample)).socket.queued = [0, 0, 0, 2, 1, 0, 0, 0, 0, 3, 3, 0, 9] := by decide +kernel
  have h0 : (ClientSession.new .sample).socket.queued = [] := by decide +kernel
  rw [hq, h0, List.nil_append] at hb
  obtain ⟨r, t, hrun, hh, -, -⟩ := hparse .big acceptAll (.new .sample)
    [[0, 0, 0, 2, 1, 0, 0], [0, 0, 3, 3, 0, 9]] acceptAll_keepsOpen (by decide +kernel) hb
    (by decide)
  exact ⟨r, t, hrun, hh⟩

end WarheadDiscord
