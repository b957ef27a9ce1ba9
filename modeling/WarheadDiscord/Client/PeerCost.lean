import WarheadDiscord.Client.Holdings

/-!
# What a peer can cost

The peer decides what is read and in which pieces, and the header of a frame says how much
space the payload gets.  `EnsureFreeSpace` makes a full buffer half as large again, each time
and without a limit.  Nevertheless the peer cannot make the client allocate more than a
constant, since the read buffer is never full when it is asked for space, and it cannot make
the client send more than a constant either.

* `readHandlerInternal_bounded`: the buffers stay within their sizes in every read.
* `Frugal.readDataHandler`: a session answers the acceptance of its login and nothing else.
* `peer_cost`: **both, for every socket of every run.**
-/

namespace WarheadDiscord

open Lib

namespace MessageBuffer

variable {b : MessageBuffer} {data : List UInt8}

theorem write_storage_length (h : b.wpos + data.length ≤ b.storage.length) :
    (b.write data).storage.length = b.storage.length := by
  rw [write]
  split
  · exact overwrite_length h
  · rfl

theorem fill_storage_length (source : MessageBuffer) (n : Nat) (h : 0 < b.getRemainingSpace) :
    (b.write (source.fromReadPointer (min n b.getRemainingSpace))).storage.length =
      b.storage.length := by
  have hlen : (source.fromReadPointer (min n b.getRemainingSpace)).length ≤
      min n b.getRemainingSpace := List.length_take_le ..
  have hrem : b.getRemainingSpace = b.storage.length - b.wpos := rfl
  exact write_storage_length (by omega)

theorem normalize_of_empty (h : b.getActiveSize = 0) :
    b.normalize.storage.length = b.storage.length ∧ b.normalize.wpos = 0 := by
  refine ⟨?_, by rw [normalize_wpos]; exact h⟩
  rw [normalize]
  split
  · dsimp only
    split
    · rw [h, fromReadPointer, List.take_zero]
      exact overwrite_length (by rw [List.length_nil]; omega)
    · rfl
  · rfl

end MessageBuffer

/-! ### The buffers -/

namespace ReadSide

/-- The largest payload that `IsValidSize` lets through. -/
def maxPayload : Nat := 9997

/-- No buffer is larger than it has to be, and no payload was. -/
structure Bounded (r : ReadSide) : Prop where
  read : r.readBuffer.getBufferSize = readBlockSize
  header : r.headerBuffer.getBufferSize = DiscordClientPktHeader.sizeOf
  headerRpos : r.headerBuffer.rpos = 0
  packet : r.packetBuffer.getBufferSize ≤ maxPayload
  handed : ∀ f ∈ r.handed, f.payload.length ≤ maxPayload

variable {e : Endian} {handler : DataHandler} {r r' : ReadSide} {s s' : ClientSession}

theorem new_bounded : new.Bounded := by
  refine ⟨resizeStorage_length _ _, resizeStorage_length _ _, rfl, ?_, ?_⟩
  · show (resizeStorage [] 4096).length ≤ maxPayload
    rw [resizeStorage_length]
    decide
  · intro f hf
    exact absurd hf List.not_mem_nil

/-- **`EnsureFreeSpace` finds free space**, since everything was read. -/
theorem asyncRead_bounded (isOpen : Bool) (h : r.Bounded) (h0 : r.readBuffer.getActiveSize = 0) :
    (r.asyncRead isOpen).Bounded := by
  obtain ⟨hlen, hw⟩ := MessageBuffer.normalize_of_empty h0
  have hread : r.readBuffer.storage.length = readBlockSize := h.read
  have hfree : 0 < r.readBuffer.normalize.getRemainingSpace := by
    rw [MessageBuffer.getRemainingSpace, hw, hlen, hread]
    decide
  rw [asyncRead]
  split
  · exact h
  · rw [MessageBuffer.ensureFreeSpace_of_pos hfree]
    exact ⟨hlen.trans hread, h.header, h.headerRpos, h.packet, h.handed⟩

/-- **The space for a payload is bounded by the check of its header.** -/
theorem readHeaderHandler_bounded {valid : Bool} (h : r.Bounded)
    (hr : r.readHeaderHandler e = .ok (r', valid)) :
    r'.Bounded ∧ r'.readBuffer = r.readBuffer := by
  have hheader : r.headerBuffer.storage.length = 6 := h.header
  have hbytes : (r.headerBuffer.fromReadPointer 6).length = 6 := by
    rw [MessageBuffer.fromReadPointer, h.headerRpos, List.drop_zero, List.length_take, hheader]
    rfl
  -- What is stored over the header has its length.
  have hstore : ∀ field : List UInt8, field.length = 4 →
      (overwrite r.headerBuffer.storage r.headerBuffer.rpos (field ++
        endianConvert e ((r.headerBuffer.fromReadPointer 6).drop 4))).length = 6 := by
    intro field hf
    rw [overwrite_length, hheader]
    rw [h.headerRpos, List.length_append, hf, endianConvert_length, List.length_drop, hbytes,
      hheader]
  rw [readHeaderHandler] at hr
  split at hr
  · cases hr
  · simp only [DiscordClientPktHeader.sizeOf, Nat.reduceAdd] at hr
    rcases ite_eq_iff.mp hr with ⟨-, hr⟩ | ⟨hvalid, hr⟩
    · cases hr
      refine ⟨⟨h.read, hstore _ ?_, h.headerRpos, h.packet, h.handed⟩, rfl⟩
      rw [endianConvertReverse_length, List.length_take, hbytes]
      rfl
    · cases hr
      refine ⟨⟨h.read, hstore _ (hostStore_length e 4 _), h.headerRpos, ?_, h.handed⟩, rfl⟩
      rw [Bool.or_eq_true, not_or, Bool.not_eq_true', Bool.not_eq_false] at hvalid
      obtain ⟨h2, hlt⟩ := (DiscordClientPktHeader.isValidSize_iff _).mp hvalid.1
      have hsub := UInt32.toNat_sub_of_le _ 2 (UInt32.le_iff_toNat_le.mpr h2)
      show (resizeStorage _ _).length ≤ maxPayload
      rw [resizeStorage_length, maxPayload, hsub]
      show _ - 2 ≤ 9997
      omega

theorem receiveHeader_bounded {state : HeaderState} (h : r.Bounded)
    (hr : r.receiveHeader e = .ok (r', state)) :
    r'.Bounded ∧ (state = .incomplete → r'.readBuffer.getActiveSize = 0) := by
  rw [receiveHeader] at hr
  split at hr
  · rename_i hrem
    have hfill := MessageBuffer.fill_storage_length r.readBuffer r.readBuffer.getActiveSize hrem
    have hb : Bounded { r with
        headerBuffer := r.headerBuffer.write (r.readBuffer.fromReadPointer
          (min r.readBuffer.getActiveSize r.headerBuffer.getRemainingSpace))
        readBuffer := r.readBuffer.readCompleted
          (min r.readBuffer.getActiveSize r.headerBuffer.getRemainingSpace) } :=
      ⟨h.read, hfill.trans h.header, by rw [MessageBuffer.write_rpos]; exact h.headerRpos,
        h.packet, h.handed⟩
    dsimp only at hr
    split at hr
    · split at hr
      · cases hr
      · rename_i h0
        cases hr
        exact ⟨hb, fun _ => not_not.mp h0⟩
    · split at hr
      · cases hr
      · rename_i r₁ valid hvalid
        cases hr
        refine ⟨(readHeaderHandler_bounded hb hvalid).1, fun hs => ?_⟩
        split at hs <;> cases hs
  · cases hr
    exact ⟨h, fun hs => by cases hs⟩

theorem receivePayload_bounded {complete : Bool} (h : r.Bounded)
    (hr : r.receivePayload = .ok (r', complete)) :
    r'.Bounded ∧ (complete = false → r'.readBuffer.getActiveSize = 0) := by
  rw [receivePayload] at hr
  split at hr
  · rename_i hrem
    have hfill := MessageBuffer.fill_storage_length r.readBuffer r.readBuffer.getActiveSize hrem
    have hb : Bounded { r with
        packetBuffer := r.packetBuffer.write (r.readBuffer.fromReadPointer
          (min r.readBuffer.getActiveSize r.packetBuffer.getRemainingSpace))
        readBuffer := r.readBuffer.readCompleted
          (min r.readBuffer.getActiveSize r.packetBuffer.getRemainingSpace) } :=
      ⟨h.read, h.header, h.headerRpos, hfill.trans_le h.packet, h.handed⟩
    dsimp only at hr
    split at hr
    · split at hr
      · cases hr
      · rename_i h0
        cases hr
        exact ⟨hb, fun _ => not_not.mp h0⟩
    · cases hr
      exact ⟨hb, fun hs => by cases hs⟩
  · cases hr
    exact ⟨h, fun hs => by cases hs⟩

/-- The payload is moved out, and its buffer starts again with nothing. -/
theorem nextRound_bounded (h : r.Bounded) : (r.nextRound e).Bounded := by
  refine ⟨h.read, h.header, rfl, Nat.zero_le _, fun f hf => ?_⟩
  rcases List.mem_append.mp hf with hf | hf
  · exact h.handed f hf
  · rw [List.mem_singleton.mp hf]
    exact h.packet

/-- **No round makes a buffer larger.**  The induction is on the fuel. -/
theorem readHandlerLoop_bounded : ∀ (fuel : Nat) (r : ReadSide) (s : ClientSession), r.Bounded →
    readHandlerLoop e handler fuel r s = .ok (r', s') → r'.Bounded := by
  intro fuel
  induction fuel with
  | zero => intro r s _ hr; cases hr
  | succ fuel ih =>
    intro r s h hr
    rw [readHandlerLoop] at hr
    split at hr
    · rcases hh : r.receiveHeader e with fault | ⟨r₁, state⟩
      · rw [hh] at hr
        cases hr
      · obtain ⟨h₁, h0₁⟩ := receiveHeader_bounded h hh
        rw [hh] at hr
        cases state with
        | incomplete =>
          cases hr
          exact asyncRead_bounded _ h₁ (h0₁ rfl)
        | malformed =>
          cases hr
          exact h₁
        | complete =>
          dsimp only at hr
          rcases hp : r₁.receivePayload with fault | ⟨r₂, complete⟩
          · rw [hp] at hr
            cases hr
          · obtain ⟨h₂, h0₂⟩ := receivePayload_bounded h₁ hp
            rw [hp] at hr
            cases complete with
            | false =>
              cases hr
              exact asyncRead_bounded _ h₂ (h0₂ rfl)
            | true =>
              dsimp only at hr
              rcases hd : handler (r₂.takePacket e).1 s with fault | ⟨t, result⟩
              · rw [hd] at hr
                cases hr
              · rw [hd] at hr
                cases result with
                | ok => exact ih _ _ (nextRound_bounded h₂) hr
                | waitingForQuery => cases hr; exact nextRound_bounded h₂
                | error => cases hr; exact nextRound_bounded h₂
    · rename_i h0
      cases hr
      exact asyncRead_bounded _ h (by omega)

/-- **No read does.** -/
theorem readHandlerInternal_bounded {pending chunk : List UInt8} (h : r.Bounded)
    (hw : r.Waits e pending) (hc : chunk.length ≤ readBlockSize)
    (hr : readHandlerInternal e handler chunk r s = .ok (r', s')) : r'.Bounded := by
  have hwpos : r.readBuffer.wpos = 0 := hw.readBuffer.wpos_eq
  have hread : r.readBuffer.storage.length = readBlockSize := h.read
  have hlen : (r.readBuffer.write chunk).storage.length = r.readBuffer.storage.length :=
    MessageBuffer.write_storage_length (by omega)
  have hb : Bounded { r with readBuffer := r.readBuffer.write chunk, readPending := false } :=
    ⟨hlen.trans hread, h.header, h.headerRpos, h.packet, h.handed⟩
  exact readHandlerLoop_bounded _ _ _ hb hr

end ReadSide

/-! ### The packets of the session -/

namespace ClientSession

variable {env : Env} {s t : ClientSession}

/-- The packets that the session itself has written. -/
def own (s : ClientSession) : List DiscordPacket :=
  (s.written.filter fun w => w.origin == .session).map (·.packet)

/-- One packet of its own, and one more when the login was accepted. -/
def Frugal (s : ClientSession) : Prop := s.own.length ≤ if s.authed then 2 else 1

theorem own_append {sent : List Written} (h : t.written = s.written ++ sent) :
    t.own.length = s.own.length + (sent.filter fun w => w.origin == .session).length := by
  rw [own, own, h, List.filter_append, List.map_append, List.length_append, List.length_map,
    List.length_map]

theorem Frugal.same (h : Frugal s) (hw : t.written = s.written) (ha : t.authed = s.authed) :
    Frugal t := by
  rw [Frugal, own, hw, ha]
  exact h

theorem Frugal.update (h : Frugal s) (w : Nat → Nat → WriteResult)
    (hc : s.socket.closing = false) : Frugal (s.update w).1 := by
  have hown := own_append (update_written w s)
  rw [List.filter_eq_nil_iff.mpr, List.length_nil, Nat.add_zero] at hown
  · rw [Frugal, hown, (update_same w hc).authed]
    exact h
  · intro x hx
    split at hx
    · obtain ⟨p, -, rfl⟩ := List.mem_map.mp hx
      exact Bool.false_ne_true
    · exact absurd hx List.not_mem_nil

/-- **Only the acceptance of the login is answered**, and there is one for each session. -/
theorem Frugal.readDataHandler {f : Frame} {result : ReadDataHandlerResult} (h : Frugal s)
    (ht : s.readDataHandler env f.packet = .ok (t, result)) : Frugal t := by
  rw [readDataHandler_eq] at ht
  split at ht
  · cases ht
  · cases ht; exact h.same rfl rfl
  · cases ht; exact h.same rfl rfl
  · cases ht; exact h.same rfl rfl
  · rename_i hr
    have ha : s.authed = false := by
      cases hs : s.authed with
      | false => rfl
      | true => rw [hs] at hr; exact absurd hr (reaction_true_ne_accepts f)
    have hauth := (authenticate_same env ((s.dispatch f).now env).2).authed
    have hwritten := authenticate_written env ((s.dispatch f).now env).2
    have hone : s.own.length ≤ 1 := by rw [Frugal, ha] at h; exact h
    cases ht
    rw [Frugal, hauth, if_pos rfl]
    split at hwritten
    · rw [own_append hwritten]
      show s.own.length + 1 ≤ 2
      omega
    · rw [own, hwritten]
      show s.own.length ≤ 2
      omega
  · cases ht; exact h.same rfl rfl

end ClientSession

/-! ### Every socket -/

namespace ClientSocket

variable {env : Env} {e : Endian} {c d : ClientSocket}

/-- What a socket keeps. -/
structure Modest (e : Endian) (c : ClientSocket) : Prop where
  inv : Inv e c
  bounded : c.read.Bounded
  frugal : c.session.Frugal

theorem begin_modest (h : begin env = .ok c) : Modest e c := by
  obtain ⟨-, hread, -, -, hauth, -, -, hw⟩ := begin_spec h
  refine ⟨begin_inv h, ?_, ?_⟩
  · rw [hread]
    exact ReadSide.asyncRead_bounded _ ReadSide.new_bounded rfl
  · rw [ClientSession.Frugal, ClientSession.own, hw, hauth]
    split
    · exact Nat.le_refl 1
    · exact Nat.zero_le 1

theorem readInternal_modest {chunk : Chunk} (h : Modest e c)
    (hd : c.readInternal env e chunk = .ok d) : d.read.Bounded ∧ d.session.Frugal := by
  cases hp : c.read.readPending with
  | false =>
    rw [readInternal, hp] at hd
    cases hd
    exact ⟨h.bounded, h.frugal⟩
  | true =>
    obtain ⟨pending, hw⟩ := h.inv.waits hp
    constructor
    · rw [readInternal, if_pos hp] at hd
      split at hd
      · rename_i hr
        cases hd
        exact ReadSide.readHandlerInternal_bounded h.bounded hw chunk.2 hr
      · cases hd
    · obtain ⟨handed, t, stop, hf, hs⟩ := readInternal_ok hw hd
      have ht := handleFrames_invariant (I := ClientSession.Frugal)
        (fun f s t result hs ht => hs.readDataHandler ht) _ _ _ _ _ h.frugal hf
      rcases hs with hs | hs
      · rw [hs]
        exact ht
      · rw [hs]
        exact ht.same rfl rfl

/-- **No action of a socket costs more.** -/
theorem step_modest {a : Act} (h : Modest e c) (hd : c.step env e a = .ok d) : Modest e d := by
  have hi := step_inv h.inv hd
  -- All but a tick and a read leave the packets of the session alone.
  have hquiet : d.read.Bounded → d.session.written = c.session.written →
      d.session.authed = c.session.authed → Modest e d :=
    fun hb hw ha => ⟨hi, hb, h.frugal.same hw ha⟩
  cases a with
  | update w => cases hd; exact ⟨hi, h.bounded, h.frugal.update w h.inv.session.closing⟩
  | read chunk =>
    obtain ⟨hb, hf⟩ := readInternal_modest h hd
    exact ⟨hi, hb, hf⟩
  | readError =>
    rw [step] at hd
    split at hd
    · cases hd
      exact hquiet ⟨h.bounded.read, h.bounded.header, h.bounded.headerRpos, h.bounded.packet,
        h.bounded.handed⟩ rfl rfl
    · cases hd
      exact h
  | addPacketToQueue p => cases hd; exact hquiet h.bounded rfl rfl
  | writeReady w => cases hd; exact hquiet h.bounded rfl rfl
  | closeSocket => cases hd; exact hquiet h.bounded rfl rfl
  | disconnect => cases hd; exact hquiet h.bounded rfl rfl
  | release => cases hd; exact hquiet h.bounded rfl rfl

theorem modest_kept (e : Endian) : Kept e (Modest e) where
  inv h := h.inv
  start h := begin_modest h
  step _ _ _ _ h hd := step_modest h hd
  unflag h := ⟨h.inv.unflag, h.bounded, h.frugal.same rfl rfl⟩
  letGo h hc := ⟨⟨⟨h.inv.session.closing, .inr hc⟩, h.inv.waits, h.inv.asks⟩, h.bounded,
    h.frugal.same rfl rfl⟩

end ClientSocket

namespace ClientSocketMgr

variable {env : Env} {e : Endian} {m : ClientSocketMgr} {acts : List Act} {c : ClientSocket}

/-- **What a peer can cost.**  In every run, whatever the peers send and in whatever pieces, the
three buffers of each socket keep their sizes, of which that of the payload is at most 9997, and
each session has written at most two packets of its own. -/
theorem peer_cost (h : run (step env e) new acts = .ok m) (hc : c ∈ m.holdings.sockets) :
    c.read.readBuffer.getBufferSize = readBlockSize ∧
      c.read.headerBuffer.getBufferSize = DiscordClientPktHeader.sizeOf ∧
      c.read.packetBuffer.getBufferSize ≤ 9997 ∧
      (∀ f ∈ c.read.handed, f.payload.length ≤ 9997) ∧
      c.session.own.length ≤ 2 := by
  obtain ⟨-, hb, hf⟩ := run_kept (ClientSocket.modest_kept e) h c hc
  refine ⟨hb.read, hb.header, hb.packet, hb.handed, Nat.le_trans hf ?_⟩
  split <;> decide

/-- A peer that accepts the login, and in the same read announces the largest payload. -/
def greedyPeer : List Act :=
  Act.connected ++ [.socketEvent none Int64.ofNat
    (.read ⟨[0, 0, 0, 3, 6, 0, 0, 0, 0, 39, 15, 7, 0], by decide⟩)]

/-- It gets all that there is to get. -/
theorem peer_cost_greedy : ∃ m, run (step .sample .little) new greedyPeer = .ok m ∧
    ∃ c ∈ m.holdings.sockets, c.read.packetBuffer.getBufferSize = 9997 ∧
      c.session.own.length = 2 ∧ c.read.readBuffer.getBufferSize = readBlockSize := by
  obtain ⟨m, hm, hp⟩ := ok_of_any (p := fun m : ClientSocketMgr =>
      m.clientSocket.any fun c : ClientSocket =>
        decide (c.read.packetBuffer.getBufferSize = 9997 ∧ c.session.own.length = 2))
    (x := run (step .sample .little) new greedyPeer) (by decide +kernel)
  rw [Option.any_eq_true] at hp
  obtain ⟨c, hc, hp⟩ := hp
  obtain ⟨hpacket, hown⟩ := of_decide_eq_true hp
  have hmem := mem_sockets hc
  exact ⟨m, hm, c, hmem, hpacket, hown, (peer_cost hm hmem).1⟩

end ClientSocketMgr

end WarheadDiscord
