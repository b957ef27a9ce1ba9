import WarheadDiscord.Client.Conversation
import WarheadDiscord.Client.Outgoing
import WarheadDiscord.Client.ReadFaults

/-!
# The session protocol

One `ClientSocket` from `Start` on, with packets to send, ticks and bytes from a peer
that sends no payload its handler cannot read and no two frames in one read.

* `Protocol`: what is written and in which order.  First the login, then nothing until
  it is answered; then one ping, and behind it the packets of the queue.
* `follow_true`, `follow_false`: which conversations go on, and which authenticate.
* `session_protocol`: both of them of every such run, which moreover never fails.
-/

namespace WarheadDiscord

open Lib

/-! ### What is written -/

/-- With `first` written at the start: nothing more until the login is answered, then a ping,
and then packets of the application. -/
def Protocol (first : List Written) (s : ClientSession) : Prop :=
  (s.authed = false ∧ s.written = first) ∨
    (s.authed = true ∧ ∃ ping apps, s.written = first ++ ⟨.session, ping⟩ :: apps ∧
      ping.opcode = DiscordCode.clientSendPing.value ∧ ∀ w ∈ apps, w.origin = .application)

namespace ClientSession

variable {env : Env} {s t : ClientSession} {first : List Written}

theorem Protocol.update (h : Protocol first s) (w : Nat → Nat → WriteResult)
    (hc : s.socket.closing = false) : Protocol first (s.update w).1 := by
  have ha := (update_same w hc).authed
  have hw := update_written w s
  rcases h with ⟨hauth, hwritten⟩ | ⟨hauth, ping, apps, hwritten, hping, happs⟩
  · refine .inl ⟨ha.trans hauth, ?_⟩
    rw [hw, hauth, hwritten]
    exact List.append_nil _
  · refine .inr ⟨ha.trans hauth, ping,
      apps ++ (if s.authed && s.isOpen then s.bufferQueue.map (⟨.application, ·⟩) else []), ?_,
      hping, fun x hx => ?_⟩
    · rw [hw, hwritten, List.append_assoc]
      rfl
    · rcases List.mem_append.mp hx with hx | hx
      · exact happs x hx
      · split at hx
        · obtain ⟨p, -, rfl⟩ := List.mem_map.mp hx
          rfl
        · exact absurd hx List.not_mem_nil

/-- **A frame on an open socket keeps the protocol.** -/
theorem Protocol.readDataHandler {f : Frame} {result : ReadDataHandlerResult}
    (h : Protocol first s) (hi : s.Inv) (hopen : s.socket.closed = false)
    (ht : s.readDataHandler env f.packet = .ok (t, result)) : Protocol first t := by
  rw [readDataHandler_eq] at ht
  split at ht
  · cases ht
  · cases ht; exact h
  · cases ht; exact h
  · cases ht; exact h
  · rename_i hr
    have ha : s.authed = false := by
      cases hs : s.authed with
      | false => rfl
      | true => rw [hs] at hr; exact absurd hr (reaction_true_ne_accepts f)
    have hw : s.written = first := by
      rcases h with ⟨-, hw⟩ | ⟨hauth, -⟩
      · exact hw
      · rw [ha] at hauth; cases hauth
    have hopen' : (((s.dispatch f).now env).2).isOpen = true := by
      show (!s.socket.closed && !s.socket.closing) = true
      rw [hopen, hi.closing]
      rfl
    have hwritten := authenticate_written env ((s.dispatch f).now env).2
    rw [hopen', if_pos rfl] at hwritten
    cases ht
    refine .inr ⟨(authenticate_same env _).authed,
      pingPacket (env.clock ((s.dispatch f).now env).2.clockReads) s.latency, [], ?_, rfl,
      fun _ hx => absurd hx List.not_mem_nil⟩
    rw [hwritten, ← hw]
    rfl
  · cases ht; exact h

end ClientSession

/-! ### Which conversations go on -/

/-- The first frame must be the acceptance of the login, -/
theorem goesOn_false {f : Frame} (hw : f.wellFormed = true) : f.goesOn false = f.isAcceptance := by
  rw [Frame.goesOn, hw, Bool.and_true]
  cases hh : f.handled false with
  | false =>
    rw [Bool.false_and]
    rw [Frame.handled] at hh
    rw [Frame.isAcceptance]
    generalize DiscordCode.ofValue f.opcode = code at hh ⊢
    rcases code with _ | c
    · rfl
    · cases c <;> first | rfl | cases hh
  | true =>
    rw [Bool.true_and]
    rcases reaction_of_wellFormed hh hw with ⟨ha, hr, -⟩ | ⟨ha, hr, -⟩ | ⟨-, -, h, -⟩
    · rw [ha, hr]; rfl
    · rw [ha, hr]; rfl
    · cases h

/-- and every other one a pong. -/
theorem goesOn_true {f : Frame} (hw : f.wellFormed = true) :
    f.goesOn true = (DiscordCode.ofValue f.opcode == some .serverSendPong) := by
  rw [Frame.goesOn, hw, Bool.and_true, Frame.handled, Frame.isRejection]
  generalize DiscordCode.ofValue f.opcode = code
  rcases code with _ | c
  · rfl
  · cases c <;> rfl

/-- An authenticated conversation goes on as long as pongs come, and stays authenticated. -/
theorem follow_true : ∀ fs : List Frame, (∀ f ∈ fs, f.wellFormed = true) →
    (follow true fs).2.1 = true ∧
      ((follow true fs).2.2 = true ↔
        ∀ f ∈ fs, DiscordCode.ofValue f.opcode = some .serverSendPong) := by
  intro fs
  induction fs with
  | nil => intro _; exact ⟨rfl, fun _ _ h => absurd h List.not_mem_nil, fun _ => rfl⟩
  | cons f fs ih =>
    intro hw
    have hgo := goesOn_true (hw f (by simp))
    obtain ⟨ha, hiff⟩ := ih fun g hg => hw g (by simp [hg])
    rw [follow]
    by_cases hp : DiscordCode.ofValue f.opcode = some .serverSendPong
    · rw [if_pos (by rw [hgo, hp]; rfl), Bool.true_or]
      refine ⟨ha, hiff.trans ⟨fun h g hg => ?_, fun h g hg => h g (by simp [hg])⟩⟩
      rcases List.mem_cons.mp hg with rfl | hg
      · exact hp
      · exact h g hg
    · rw [if_neg (by rw [hgo]; simpa using hp)]
      exact ⟨rfl, fun h => (by cases h), fun h => absurd (h f (by simp)) hp⟩

/-- **A conversation goes on** when it is an acceptance and pongs behind it, **and is
authenticated** when it begins with an acceptance. -/
theorem follow_false (fs : List Frame) (hw : ∀ f ∈ fs, f.wellFormed = true) :
    ((follow false fs).2.2 = true ↔ fs = [] ∨ ∃ f rest, fs = f :: rest ∧
      f.isAcceptance = true ∧ ∀ g ∈ rest, DiscordCode.ofValue g.opcode = some .serverSendPong) ∧
    ((follow false fs).2.1 = true ↔ ∃ f rest, fs = f :: rest ∧ f.isAcceptance = true) := by
  cases fs with
  | nil =>
    refine ⟨⟨fun _ => .inl rfl, fun _ => rfl⟩, fun h => (by cases h), ?_⟩
    rintro ⟨_, _, h, _⟩
    cases h
  | cons f rest =>
    have hgo := goesOn_false (hw f (by simp))
    obtain ⟨ha, hiff⟩ := follow_true rest fun g hg => hw g (by simp [hg])
    rw [follow, hgo, Bool.false_or]
    cases hacc : f.isAcceptance with
    | true =>
      rw [if_pos rfl]
      refine ⟨hiff.trans ⟨fun h => .inr ⟨f, rest, rfl, hacc, h⟩, ?_⟩,
        fun _ => ⟨f, rest, rfl, hacc⟩, fun _ => ha⟩
      rintro (h | ⟨f', rest', h, -, hp⟩)
      · cases h
      · cases h; exact hp
    | false =>
      rw [if_neg (by decide)]
      refine ⟨⟨fun h => (by cases h), ?_⟩, fun h => (by cases h), ?_⟩
      · rintro (h | ⟨f', rest', h, hf, -⟩)
        · cases h
        · cases h; rw [hacc] at hf; cases hf
      · rintro ⟨f', rest', h, hf⟩
        cases h; rw [hacc] at hf; cases hf

/-! ### The runs -/

theorem settled_of_length_le_one {authed : Bool} {fs : List Frame} (h : fs.length ≤ 1) :
    settled authed fs = true := by
  match fs, h with
  | [], _ => rfl
  | [f], _ =>
    unfold settled
    split
    · split <;> rfl
    · rfl

namespace ClientSocket

variable {env : Env} {e : Endian} {c d : ClientSocket} {stream : List UInt8}
  {first : List Written}

/-- No read of a run completes two frames. -/
def OnePerRead : List UInt8 → List Act → Prop
  | _, [] => True
  | stream, a :: acts =>
    (discordFormat.parse (stream ++ a.bytes)).1.length ≤ (discordFormat.parse stream).1.length + 1 ∧
      OnePerRead (stream ++ a.bytes) acts

/-- **One read** that completes at most one frame, which its handler can read. -/
theorem readInternal_protocol {chunk : Chunk} (hi : Inv e c) (hf : Follows e stream c)
    (hp : Protocol first c.session)
    (hone : (discordFormat.parse (stream ++ chunk.1)).1.length ≤
      (discordFormat.parse stream).1.length + 1)
    (hw : ∀ f ∈ (discordFormat.parse (stream ++ chunk.1)).1, f.wellFormed = true) :
    ∃ d, c.readInternal env e chunk = .ok d ∧ Follows e (stream ++ chunk.1) d ∧
      Protocol first d.session := by
  cases hc : c.session.socket.closed with
  | true =>
    refine ⟨c, ?_, hf.append_of_closed hc _, hp⟩
    rw [readInternal, (hf.ended hc).1]
    rfl
  | false =>
    obtain ⟨-, rest, htail, hwait⟩ := hf.goesOn hc
    have happ := Format.parse_append _ htail chunk.1
    rw [happ] at hone hw
    rw [List.length_append] at hone
    have hset : settled c.session.authed (discordFormat.parse (rest ++ chunk.1)).1 = true :=
      settled_of_length_le_one (by omega)
    have htame := tame_of_wellFormed (discordFormat.parse (rest ++ chunk.1)).1 c.session.authed
      fun f hm => hw f (List.mem_append_right _ hm)
    obtain ⟨d, hd⟩ := (readInternal_ok_iff env chunk hwait).mpr htame
    have hsr : SettledRead e c chunk := fun pending hw' => by
      rw [hw'.holds.unique hwait.holds]; exact hset
    refine ⟨d, hd, readInternal_follows hi hf (fun _ => hsr) hd, ?_⟩
    obtain ⟨handed, t, stop, hh, hs⟩ := readInternal_ok hwait hd
    have hpt := handleFrames_settled (J := Protocol first)
      (fun f s t result hi ho hj ht => ClientSession.Protocol.readDataHandler hj hi ho ht)
      _ _ _ _ _ hi.session hc hset hp hh
    rcases hs with hs | hs
    · rw [hs]; exact hpt
    · rw [hs]; exact hpt

theorem step_protocol (env : Env) {a : Act} (hi : Inv e c) (hf : Follows e stream c)
    (hpr : Protocol first c.session) (hp : a.Peaceful)
    (hone : (discordFormat.parse (stream ++ a.bytes)).1.length ≤
      (discordFormat.parse stream).1.length + 1)
    (hw : ∀ f ∈ (discordFormat.parse (stream ++ a.bytes)).1, f.wellFormed = true) :
    ∃ d, c.step env e a = .ok d ∧ Follows e (stream ++ a.bytes) d ∧ Protocol first d.session := by
  cases a with
  | read chunk => exact readInternal_protocol hi hf hpr hone hw
  | addPacketToQueue p =>
    exact ⟨_, rfl, step_follows env hi hf hp trivial rfl, hpr⟩
  | update w =>
    exact ⟨_, rfl, step_follows env hi hf hp trivial rfl,
      ClientSession.Protocol.update hpr w hi.session.closing⟩
  | writeReady w =>
    exact ⟨_, rfl, step_follows env hi hf hp trivial rfl, hpr⟩
  | readError => exact hp.elim
  | closeSocket => exact hp.elim
  | disconnect => exact hp.elim
  | release => exact hp.elim

theorem run_protocol (env : Env) : ∀ (acts : List Act) (c : ClientSocket)
    (stream : List UInt8), Inv e c → Follows e stream c → Protocol first c.session →
    (∀ a ∈ acts, a.Peaceful) → OnePerRead stream acts →
    (∀ f ∈ (discordFormat.parse (stream ++ received acts)).1, f.wellFormed = true) →
    ∃ d, run (step env e) c acts = .ok d ∧ Follows e (stream ++ received acts) d ∧
      Protocol first d.session ∧ Inv e d := by
  intro acts
  induction acts with
  | nil =>
    intro c stream hi hf hpr _ _ _
    refine ⟨c, rfl, ?_, hpr, hi⟩
    rw [received, List.flatMap_nil, List.append_nil]
    exact hf
  | cons a acts ih =>
    intro c stream hi hf hpr hp hone hw
    rw [received, List.flatMap_cons, ← List.append_assoc] at hw ⊢
    obtain ⟨h1, hrest⟩ := hone
    obtain ⟨m, hm, hf', hpr'⟩ := step_protocol env hi hf hpr (hp a (by simp)) h1
      fun f hfm => hw f ((Format.parse_prefix _ _).subset hfm)
    obtain ⟨d, hd, h⟩ := ih m _ (step_inv hi hm) hf' hpr' (fun b hb => hp b (by simp [hb])) hrest hw
    exact ⟨d, by rw [run_cons_of_ok hm]; exact hd, h⟩

theorem run_silent_written (env : Env) (acts : List Act) (c : ClientSocket) (hi : Inv e c)
    (h : Silent c) (hp : ∀ a ∈ acts, a.Peaceful) :
    ∃ d, run (step env e) c acts = .ok d ∧ Inv e d ∧ Silent d ∧
      d.session.written = c.session.written := by
  refine run_of_meets (I := fun d => Inv e d ∧ Silent d ∧ d.session.written = c.session.written)
    (C := fun _ a => a.Peaceful) ?_ ?_ acts c ⟨hi, h, rfl⟩
    (meets_of_forall acts c fun a ha _ => hp a ha)
  · rintro s a t ⟨hi, hs, hw⟩ ha ht
    refine ⟨step_inv hi ht, step_silent hi hs ha ht, ?_⟩
    cases a with
    | read chunk => rw [step, readInternal, hs.readPending] at ht; cases ht; exact hw
    | update w =>
      cases ht
      rw [ClientSession.update_written, hs.authed, hw]
      exact List.append_nil _
    | addPacketToQueue p => cases ht; exact hw
    | writeReady w => cases ht; exact hw
    | _ => exact ha.elim
  · rintro s a ⟨hi, hs, -⟩ ha
    cases a with
    | read chunk => exact ⟨s, by rw [step, readInternal, hs.readPending]; rfl⟩
    | _ => exact ⟨_, rfl⟩

/-- **The session protocol.**  For every run of one socket from `Start` on, in which the
peer sends well-formed frames and no two of them in one read: the run does not fail; what
is queued are the packets of the history; the login is the first of these, nothing else is
written before the answer, and then one ping goes ahead of every packet of the application;
unless a header was bad, the socket is open after the frames exactly when these are none, or
an acceptance and pongs behind it; and the session is authenticated exactly when the first
of them was an acceptance. -/
theorem session_protocol (env : Env) (e : Endian) (start : ClientSocket)
    (hs : begin env = .ok start) (acts : List Act) (hp : ∀ a ∈ acts, a.Peaceful)
    (hone : OnePerRead [] acts)
    (hw : ∀ f ∈ (discordFormat.parse (received acts)).1, f.wellFormed = true) :
    ∃ c, run (step env e) start acts = .ok c ∧
      c.session.socket.queued = c.session.written.flatMap (fun w => w.packet.wire) ∧
      (c.session.authed = false → c.session.written = [] ∨
        c.session.written = [⟨.session, (ClientSession.new env).authPacket env⟩]) ∧
      (c.session.authed = true → ∃ ping apps, c.session.written =
          ⟨.session, (ClientSession.new env).authPacket env⟩ :: ⟨.session, ping⟩ :: apps ∧
        ping.opcode = DiscordCode.clientSendPing.value ∧ ∀ w ∈ apps, w.origin = .application) ∧
      ((discordFormat.parse (received acts)).2 ≠ .bad →
        (c.session.isOpen = true ↔ start.session.isOpen = true ∧
          ((discordFormat.parse (received acts)).1 = [] ∨
            ∃ f rest, (discordFormat.parse (received acts)).1 = f :: rest ∧
              f.isAcceptance = true ∧
              ∀ g ∈ rest, DiscordCode.ofValue g.opcode = some .serverSendPong))) ∧
      (c.session.authed = true ↔ start.session.isOpen = true ∧
        ∃ f rest, (discordFormat.parse (received acts)).1 = f :: rest ∧
          f.isAcceptance = true) := by
  obtain ⟨-, -, -, -, ha, -, -, hwritten⟩ := begin_spec hs
  have hi := begin_inv (e := e) hs
  cases ho : start.session.isOpen with
  | true =>
    rw [ho, if_pos rfl] at hwritten
    obtain ⟨c, hc, hf, hpr, hic⟩ := run_protocol env acts start [] hi
      (begin_follows hs ho) (.inl ⟨ha, hwritten⟩) hp hone hw
    rw [List.nil_append] at hf
    obtain ⟨hgo, hauth⟩ := follow_false _ hw
    have hopen : (discordFormat.parse (received acts)).2 ≠ .bad → (c.session.isOpen = true ↔
        (follow false (discordFormat.parse (received acts)).1).2.2 = true) := by
      intro hvalid
      rw [hic.session.isOpen_eq]
      cases hcl : c.session.socket.closed with
      | false => exact ⟨fun _ => (hf.goesOn hcl).1, fun _ => rfl⟩
      | true =>
        have hover := (hf.ended hcl).2.resolve_right hvalid
        rw [hover]
        decide
    refine ⟨c, hc, run_recorded hs hc, fun h => ?_, fun h => ?_, ?_, ?_⟩
    · rcases hpr with ⟨-, hw⟩ | ⟨h', -⟩
      · exact .inr hw
      · rw [h] at h'; cases h'
    · rcases hpr with ⟨h', -⟩ | ⟨-, hpr⟩
      · rw [h] at h'; cases h'
      · exact hpr
    · intro hvalid
      rw [hopen hvalid, hgo]
      exact ⟨fun h => ⟨rfl, h⟩, fun h => h.2⟩
    · rw [hf.authed, hauth]
      exact ⟨fun h => ⟨rfl, h⟩, fun h => h.2⟩
  | false =>
    rw [ho, if_neg (by decide)] at hwritten
    obtain ⟨c, hc, hic, hsil, hcw⟩ := run_silent_written env acts start hi
      (begin_silent hs ho) hp
    rw [hwritten] at hcw
    refine ⟨c, hc, run_recorded hs hc, fun _ => .inl hcw, fun h => ?_,
      fun _ => ⟨fun h => ?_, fun h => ?_⟩, ⟨fun h => ?_, fun h => ?_⟩⟩
    · rw [hsil.authed] at h; cases h
    · rw [hic.session.isOpen_eq, hsil.closed] at h; cases h
    · exact absurd h.1 (by decide)
    · rw [hsil.authed] at h; cases h
    · exact absurd h.1 (by decide)

/-- A login that is accepted, a packet to send, a tick, and a pong. -/
theorem session_protocol_login : ∃ start, begin .sample = .ok start ∧
    ∃ c, run (step .sample .little) start
        [.addPacketToQueue ⟨.new, 3⟩, .read ⟨[0, 0, 0, 3, 6, 0, 0], by decide⟩,
          .update fun _ _ => .wouldBlock,
          .read ⟨[0, 0, 0, 10, 7, 0, 1, 0, 0, 0, 0, 0, 0, 0], by decide⟩] = .ok c ∧
      c.session.isOpen = true ∧ c.session.authed = true := by
  obtain ⟨start, hs, ho, -, -⟩ := begin_sample
  obtain ⟨c, hc, -, -, -, hopen, hauth⟩ := session_protocol .sample .little start hs
    [.addPacketToQueue ⟨.new, 3⟩, .read ⟨[0, 0, 0, 3, 6, 0, 0], by decide⟩,
      .update fun _ _ => .wouldBlock,
      .read ⟨[0, 0, 0, 10, 7, 0, 1, 0, 0, 0, 0, 0, 0, 0], by decide⟩] (by
        intro a ha
        simp only [List.mem_cons, List.not_mem_nil, or_false] at ha
        rcases ha with rfl | rfl | rfl | rfl <;> trivial)
    ⟨by decide, by decide, by decide, by decide, trivial⟩
    (by decide)
  have hframes : (discordFormat.parse (received
      [.addPacketToQueue ⟨.new, 3⟩, .read ⟨[0, 0, 0, 3, 6, 0, 0], by decide⟩,
        .update fun _ _ => .wouldBlock,
        .read ⟨[0, 0, 0, 10, 7, 0, 1, 0, 0, 0, 0, 0, 0, 0], by decide⟩])).1 =
      [⟨6, [0]⟩, ⟨7, [1, 0, 0, 0, 0, 0, 0, 0]⟩] := by decide
  refine ⟨start, hs, c, hc, (hopen (by decide)).mpr ⟨ho, .inr ⟨_, _, hframes, rfl, ?_⟩⟩,
    hauth.mpr ⟨ho, _, _, hframes, rfl⟩⟩
  intro g hg
  obtain rfl := List.mem_singleton.mp hg
  rfl

end ClientSocket

end WarheadDiscord
