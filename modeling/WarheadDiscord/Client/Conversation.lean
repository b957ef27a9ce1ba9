import WarheadDiscord.Client.ClientSocket

/-!
# The conversation with the server

`follow` says what a session is for: it answers frame after frame until one of them
ends it, a rejected login among these.  It knows nothing of reads.

The code follows this as long as no read brings more frames behind a rejection
(`settled`): `handleFrames_follow` for the frames of one read, `Follows` and
`run_follows` for the reads of a whole run.
-/

namespace WarheadDiscord

open Lib

/-- A frame after which the conversation goes on. -/
def Frame.goesOn (authed : Bool) (f : Frame) : Bool :=
  f.handled authed && f.wellFormed && !f.isRejection

/-- **What a session makes of the frames of a stream**: the frames that it acts upon,
whether it is authenticated then, and whether the conversation goes on. -/
def follow : Bool → List Frame → List Frame × Bool × Bool
  | authed, [] => ([], authed, true)
  | authed, f :: fs =>
    if f.goesOn authed then
      (f :: (follow (authed || f.isAcceptance) fs).1, (follow (authed || f.isAcceptance) fs).2)
    else ([f], authed, false)

/-- Nothing is behind a rejection. -/
def settled : Bool → List Frame → Bool
  | _, [] => true
  | authed, f :: fs =>
    if f.handled authed && f.wellFormed then
      if f.isRejection then fs.isEmpty else settled (authed || f.isAcceptance) fs
    else true

/-- A conversation that goes on is continued by what follows, -/
theorem follow_append : ∀ (xs ys : List Frame) (authed : Bool),
    (follow authed xs).2.2 = true →
    follow authed (xs ++ ys) =
      ((follow authed xs).1 ++ (follow (follow authed xs).2.1 ys).1,
        (follow (follow authed xs).2.1 ys).2) := by
  intro xs
  induction xs with
  | nil => intro ys authed _; rfl
  | cons f fs ih =>
    intro ys authed h
    rw [follow] at h ⊢
    rw [List.cons_append, follow]
    split at h
    · rename_i hf
      simp only [if_pos hf]
      rw [ih ys _ h]
      rfl
    · cases h

/-- and one that has ended is not. -/
theorem follow_append_of_over : ∀ (xs ys : List Frame) (authed : Bool),
    (follow authed xs).2.2 = false → follow authed (xs ++ ys) = follow authed xs := by
  intro xs
  induction xs with
  | nil => intro ys authed h; cases h
  | cons f fs ih =>
    intro ys authed h
    rw [follow] at h
    rw [List.cons_append, follow, follow]
    split at h
    · rename_i hf
      simp only [if_pos hf]
      rw [ih ys _ h]
    · rename_i hf
      simp only [if_neg hf]

theorem isAcceptance_of_isRejection {f : Frame} (h : f.isRejection = true) :
    f.isAcceptance = false := by
  rw [Frame.isRejection, Bool.and_eq_true] at h
  rw [Frame.isAcceptance, h.1, Bool.true_and]
  simpa using h.2

variable {env : Env} {e : Endian} {chunk : Chunk}

/-! ### The frames of one read -/

/-- **The frames of a settled read on an open socket.**  Each of them is dispatched on the
open socket, and an invariant of that carries over the read. -/
theorem handleFrames_settled {J : ClientSession → Prop}
    (hstep : ∀ (f : Frame) s t result, s.Inv → s.socket.closed = false → J s →
      s.readDataHandler env f.packet = .ok (t, result) → J t) :
    ∀ (fs : List Frame) (s : ClientSession) (handed : List Frame) (t : ClientSession)
      (stop : Option ReadDataHandlerResult), s.Inv → s.socket.closed = false →
      settled s.authed fs = true → J s →
      handleFrames (ClientSession.readDataHandler env) fs s = .ok (handed, t, stop) → J t := by
  intro fs
  induction fs with
  | nil => intro s handed t stop _ _ _ hj h; cases h; exact hj
  | cons f fs ih =>
    intro s handed t stop hi hopen hset hj h
    rw [handleFrames] at h
    rw [settled] at hset
    cases hh : f.handled s.authed with
    | false =>
      obtain ⟨u, hu, -, -⟩ := ClientSession.readDataHandler_of_not_handled env hh
      rw [hu] at h
      cases h
      exact hstep f s _ _ hi hopen hj hu
    | true =>
      cases hw : f.wellFormed with
      | false =>
        obtain ⟨fault, hu⟩ := ClientSession.readDataHandler_of_not_wellFormed env hh hw
        rw [hu] at h
        cases h
      | true =>
        obtain ⟨u, hu, hi', ha, -, hc⟩ := hi.readDataHandler_of_wellFormed env hh hw
        have hju := hstep f s u _ hi hopen hj hu
        rw [hu] at h
        dsimp only at h
        rcases hr : handleFrames (ClientSession.readDataHandler env) fs u with
          fault | ⟨handed', v, stop'⟩
        · rw [hr] at h; cases h
        · rw [hr] at h
          cases h
          cases hrej : f.isRejection with
          | true =>
            rw [hh, hw, hrej] at hset
            obtain rfl : fs = [] := List.isEmpty_iff.mp hset
            cases hr
            exact hju
          | false =>
            rw [hh, hw, hrej, ← ha] at hset
            rw [hopen, hrej] at hc
            exact ih u _ _ _ hi' hc hset hju hr

/-- **A settled read follows the conversation.** -/
theorem handleFrames_follow : ∀ (fs : List Frame) (s : ClientSession) (handed : List Frame)
    (t : ClientSession) (stop : Option ReadDataHandlerResult), s.Inv →
    s.socket.closed = false → settled s.authed fs = true →
    handleFrames (ClientSession.readDataHandler env) fs s = .ok (handed, t, stop) →
    t.dispatched = s.dispatched ++ (follow s.authed fs).1.map (⟨·, false⟩) ∧
      t.authed = (follow s.authed fs).2.1 ∧
      (((follow s.authed fs).2.2 = true ∧ stop = none ∧ t.socket.closed = false) ∨
        ((follow s.authed fs).2.2 = false ∧
          (stop = some .error ∨ stop = none ∧ t.socket.closed = true))) := by
  intro fs
  induction fs with
  | nil =>
    intro s handed t stop _ hopen _ h
    cases h
    exact ⟨(List.append_nil _).symm, rfl, .inl ⟨rfl, rfl, hopen⟩⟩
  | cons f fs ih =>
    intro s handed t stop hi hopen hset h
    rw [handleFrames] at h
    rw [settled] at hset
    rw [follow, Frame.goesOn]
    cases hh : f.handled s.authed with
    | false =>
      obtain ⟨u, hu, ha, hd⟩ := ClientSession.readDataHandler_of_not_handled env hh
      rw [hu] at h
      cases h
      rw [hopen] at hd
      exact ⟨hd, ha, .inr ⟨rfl, .inl rfl⟩⟩
    | true =>
      cases hw : f.wellFormed with
      | false =>
        obtain ⟨fault, hu⟩ := ClientSession.readDataHandler_of_not_wellFormed env hh hw
        rw [hu] at h
        cases h
      | true =>
        obtain ⟨u, hu, hi', ha, hd, hc⟩ := hi.readDataHandler_of_wellFormed env hh hw
        rw [hu] at h
        dsimp only at h
        rw [hopen] at hd hc
        rcases hr : handleFrames (ClientSession.readDataHandler env) fs u with
          fault | ⟨handed', v, stop'⟩
        · rw [hr] at h; cases h
        · rw [hr] at h
          cases h
          cases hrej : f.isRejection with
          | true =>
            rw [hh, hw, hrej] at hset
            obtain rfl : fs = [] := List.isEmpty_iff.mp hset
            cases hr
            rw [hrej] at hc
            rw [isAcceptance_of_isRejection hrej, Bool.or_false] at ha
            exact ⟨hd, ha, .inr ⟨rfl, .inr ⟨rfl, hc⟩⟩⟩
          | false =>
            rw [hh, hw, hrej, ← ha] at hset
            rw [hrej] at hc
            obtain ⟨hd', ha', hend⟩ := ih u _ _ _ hi' hc hset hr
            rw [ha] at hd' ha' hend
            refine ⟨?_, ha', hend⟩
            rw [hd', hd, List.append_assoc]
            rfl

/-! ### The reads of a run -/

namespace ClientSocket

/-- No frame that the chunk completes is behind a rejection. -/
def SettledRead (e : Endian) (c : ClientSocket) (chunk : Chunk) : Prop :=
  ∀ pending, c.read.Waits e pending →
    settled c.session.authed (discordFormat.parse (pending ++ chunk.1)).1 = true

/-- The socket has followed the conversation in the bytes so far: it is open and waits for
what continues them, or it has ended the conversation or refused the bytes. -/
structure Follows (e : Endian) (stream : List UInt8) (c : ClientSocket) : Prop where
  dispatched : c.session.dispatched =
    (follow false (discordFormat.parse stream).1).1.map (⟨·, false⟩)
  authed : c.session.authed = (follow false (discordFormat.parse stream).1).2.1
  goesOn : c.session.socket.closed = false →
    (follow false (discordFormat.parse stream).1).2.2 = true ∧
      ∃ rest, (discordFormat.parse stream).2 = .open rest ∧ c.read.Waits e rest
  ended : c.session.socket.closed = true → c.read.readPending = false ∧
    ((follow false (discordFormat.parse stream).1).2.2 = false ∨
      (discordFormat.parse stream).2 = .bad)

variable {c d : ClientSocket} {stream : List UInt8}

theorem Follows.same {s : ClientSession} (h : Follows e stream c)
    (hs : ClientSession.SameReader c.session s) : Follows e stream { c with session := s } where
  dispatched := hs.dispatched.trans h.dispatched
  authed := hs.authed.trans h.authed
  goesOn hc := h.goesOn (hs.closed.symm.trans hc)
  ended hc := h.ended (hs.closed.symm.trans hc)

theorem Follows.append_of_closed (h : Follows e stream c) (hc : c.session.socket.closed = true)
    (more : List UInt8) : Follows e (stream ++ more) c := by
  obtain ⟨hp, hover⟩ := h.ended hc
  have hfollow : follow false (discordFormat.parse (stream ++ more)).1 =
      follow false (discordFormat.parse stream).1 ∧
      ((follow false (discordFormat.parse stream).1).2.2 = false ∨
        (discordFormat.parse (stream ++ more)).2 = .bad) := by
    cases htail : (discordFormat.parse stream).2 with
    | bad =>
      rw [Format.parse_append_bad _ htail, htail]
      exact ⟨rfl, .inr rfl⟩
    | «open» rest =>
      have hf : (follow false (discordFormat.parse stream).1).2.2 = false :=
        hover.resolve_right fun hb => by rw [htail] at hb; cases hb
      rw [Format.parse_append _ htail]
      exact ⟨follow_append_of_over _ _ _ hf, .inl hf⟩
  obtain ⟨hf, hend⟩ := hfollow
  refine ⟨by rw [hf]; exact h.dispatched, by rw [hf]; exact h.authed, fun hc' => ?_,
    fun _ => ⟨hp, by rw [hf]; exact hend⟩⟩
  rw [hc] at hc'
  cases hc'

theorem Follows.append_of_open (h : Follows e stream c) (hc : c.session.socket.closed = false)
    (more : List UInt8) :
    ∃ rest, c.read.Waits e rest ∧
      follow false (discordFormat.parse (stream ++ more)).1 =
        ((follow false (discordFormat.parse stream).1).1 ++
            (follow c.session.authed (discordFormat.parse (rest ++ more)).1).1,
          (follow c.session.authed (discordFormat.parse (rest ++ more)).1).2) ∧
      (discordFormat.parse (stream ++ more)).2 = (discordFormat.parse (rest ++ more)).2 := by
  obtain ⟨hgo, rest, htail, hw⟩ := h.goesOn hc
  have happ := Format.parse_append _ htail more
  refine ⟨rest, hw, ?_, by rw [happ]⟩
  rw [happ, follow_append _ _ false hgo, ← h.authed]

/-- A socket is closed when the conversation is over, or the bytes are bad. -/
theorem follows_of_closed {r : ReadSide} {s : ClientSession}
    (hdispatched : s.dispatched =
      (follow false (discordFormat.parse stream).1).1.map (⟨·, false⟩))
    (hauthed : s.authed = (follow false (discordFormat.parse stream).1).2.1)
    (hclosed : s.socket.closed = true) (hpending : r.readPending = false)
    (hover : (follow false (discordFormat.parse stream).1).2.2 = false ∨
      (discordFormat.parse stream).2 = .bad) : Follows e stream ⟨r, s⟩ where
  dispatched := hdispatched
  authed := hauthed
  goesOn hopen := absurd (hclosed.symm.trans hopen) (by decide)
  ended _ := ⟨hpending, hover⟩

theorem readInternal_follows (hi : Inv e c) (h : Follows e stream c)
    (hset : c.read.readPending = true → SettledRead e c chunk)
    (hd : c.readInternal env e chunk = .ok d) : Follows e (stream ++ chunk.1) d := by
  cases hc : c.session.socket.closed with
  | true =>
    rw [readInternal, (h.ended hc).1] at hd
    cases hd
    exact h.append_of_closed hc _
  | false =>
    obtain ⟨rest, hw, hfollow, htail⟩ := h.append_of_open hc chunk.1
    have hset := hset hw.readPending rest hw
    have href := read_step env chunk hw
    rw [readInternal, if_pos hw.readPending] at hd
    rw [receive] at href
    rcases hf : handleFrames (ClientSession.readDataHandler env)
        (discordFormat.parse (rest ++ chunk.1)).1 c.session with fault | ⟨handed, t, stop⟩
    · rw [hf] at href
      have herr : _ = Except.error fault := href
      rw [herr] at hd
      cases hd
    · obtain ⟨hdis, hauth, hend⟩ := handleFrames_follow _ _ _ _ _ hi.session hc hset hf
      have hit := handleFrames_invariant (I := ClientSession.Inv)
        (fun f s t result hi ht => ClientSession.readDataHandler_inv hi ht) _ _ _ _ _ hi.session hf
      have hdis' : t.dispatched = (follow false (discordFormat.parse (stream ++ chunk.1)).1).1.map
          (⟨·, false⟩) := by
        rw [hfollow, hdis, h.dispatched, List.map_append]
      have hauth' : t.authed =
          (follow false (discordFormat.parse (stream ++ chunk.1)).1).2.1 := by
        rw [hfollow, hauth]
      have hgo' : (follow false (discordFormat.parse (stream ++ chunk.1)).1).2.2 =
          (follow c.session.authed (discordFormat.parse (rest ++ chunk.1)).1).2.2 := by
        rw [hfollow]
      rw [hf] at href
      dsimp only at href
      obtain ⟨r', hr', -, hnext⟩ := href
      rw [hr'] at hd
      cases hd
      rw [← hgo'] at hend
      rw [← htail] at hnext ⊢
      have hclose : t.closeSocket.socket.closed = true := ClientSession.closeSocket_closed t
      rcases hend with ⟨hgo, rfl, hopen⟩ | ⟨hgo, rfl | ⟨rfl, hclosed⟩⟩
      · cases htl : (discordFormat.parse (stream ++ chunk.1)).2 with
        | bad =>
          rw [htl] at hnext
          exact follows_of_closed hdis' hauth' hclose hnext (.inr htl)
        | «open» rest' =>
          rw [htl] at hnext
          dsimp only at hnext
          rw [hit.isOpen_eq, hopen, if_pos (by decide)] at hnext
          refine ⟨hdis', hauth', fun _ => ⟨hgo, rest', htl, hnext⟩, fun hc' => ?_⟩
          exact absurd (hopen.symm.trans hc') (by decide)
      · -- The handler has refused a frame, whatever is behind it.
        cases htl : (discordFormat.parse (stream ++ chunk.1)).2 with
        | bad =>
          rw [htl] at hnext
          exact follows_of_closed hdis' hauth' hclose hnext (.inl hgo)
        | «open» rest' =>
          rw [htl] at hnext
          exact follows_of_closed hdis' hauth' hclose hnext (.inl hgo)
      · cases htl : (discordFormat.parse (stream ++ chunk.1)).2 with
        | bad =>
          rw [htl] at hnext
          exact follows_of_closed hdis' hauth' hclose hnext (.inl hgo)
        | «open» rest' =>
          rw [htl] at hnext
          dsimp only at hnext
          rw [hit.isOpen_eq, hclosed, if_neg (by decide)] at hnext
          exact follows_of_closed hdis' hauth' hclosed hnext (.inl hgo)

/-- The bytes that the reads of a run bring. -/
def received (acts : List Act) : List UInt8 := acts.flatMap Act.bytes

/-- No read of an action brings frames behind a rejection. -/
def SettledAct (e : Endian) (c : ClientSocket) : Act → Prop
  | .read chunk => c.read.readPending = true → SettledRead e c chunk
  | _ => True

theorem step_follows (env : Env) {a : Act} (hi : Inv e c) (h : Follows e stream c) (hp : a.Peaceful)
    (hset : SettledAct e c a) (hd : c.step env e a = .ok d) : Follows e (stream ++ a.bytes) d := by
  rcases step_peaceful hi.session.closing hp hd with ⟨chunk, rfl⟩ | ⟨hb, s, rfl, hs⟩
  · exact readInternal_follows hi h hset hd
  · rw [hb, List.append_nil]
    exact h.same hs

/-- **A run follows the conversation**, under any condition that makes its reads settled. -/
theorem run_follows {C : ClientSocket → Act → Prop}
    (hC : ∀ stream c a, Follows e stream c → C c a → SettledAct e c a) :
    ∀ (acts : List Act) (c d : ClientSocket) (stream : List UInt8), Inv e c →
      Follows e stream c → (∀ a ∈ acts, a.Peaceful) → Each (step env e) C c acts →
      run (step env e) c acts = .ok d → Follows e (stream ++ received acts) d := by
  intro acts
  induction acts with
  | nil =>
    intro c d stream _ h _ _ hd
    cases hd
    rw [received, List.flatMap_nil, List.append_nil]
    exact h
  | cons a acts ih =>
    intro c d stream hi h hp hset hd
    obtain ⟨m, hm, hr⟩ := run_cons_ok hd
    obtain ⟨hc, hrest⟩ := hset m hm
    rw [received, List.flatMap_cons, ← List.append_assoc]
    exact ih m d _ (step_inv hi hm) (step_follows env hi h (hp a (by simp)) (hC _ c a h hc) hm)
      (fun b hb => hp b (by simp [hb])) hrest hr

theorem begin_follows (h : begin env = .ok c) (ho : c.session.isOpen = true) :
    Follows e [] c := by
  obtain ⟨-, hread, hclosing, -, hauth, -, hdis, -⟩ := begin_spec h
  have hw := ReadSide.new_waits e
  rw [ho] at hread
  rw [← hread] at hw
  have hc : c.session.socket.closed = false := by
    have := (begin_inv (e := e) h).session.isOpen_eq
    rw [ho] at this
    simpa using this.symm
  exact ⟨hdis, hauth, fun _ => ⟨rfl, [], rfl, hw⟩,
    fun hc' => absurd (hc.symm.trans hc') (by decide)⟩

/-- A session that starts closed stays as it is. -/
structure Silent (c : ClientSocket) : Prop where
  closed : c.session.socket.closed = true
  readPending : c.read.readPending = false
  authed : c.session.authed = false
  dispatched : c.session.dispatched = []

theorem begin_silent (h : begin env = .ok c) (ho : c.session.isOpen = false) : Silent c := by
  obtain ⟨-, hread, hclosing, -, hauth, -, hdis, -⟩ := begin_spec h
  rw [ho] at hread
  have hc := (begin_inv (e := .little) h).session.isOpen_eq
  rw [ho] at hc
  exact ⟨by simpa using hc.symm, by rw [hread]; rfl, hauth, hdis⟩

theorem step_silent {a : Act} (hi : Inv e c) (h : Silent c) (hp : a.Peaceful)
    (hd : c.step env e a = .ok d) : Silent d := by
  rcases step_peaceful hi.session.closing hp hd with ⟨chunk, rfl⟩ | ⟨-, s, rfl, hs⟩
  · rw [step, readInternal, h.readPending] at hd
    cases hd
    exact h
  · exact ⟨hs.closed.trans h.closed, h.readPending, hs.authed.trans h.authed,
      hs.dispatched.trans h.dispatched⟩

theorem run_silent : ∀ (acts : List Act) (c d : ClientSocket), Inv e c → Silent c →
    (∀ a ∈ acts, a.Peaceful) → run (step env e) c acts = .ok d → Silent d := by
  intro acts
  induction acts with
  | nil => intro c d _ h _ hd; cases hd; exact h
  | cons a acts ih =>
    intro c d hi h hp hd
    obtain ⟨m, hm, hr⟩ := run_cons_ok hd
    exact ih m d (step_inv hi hm) (step_silent hi h (hp a (by simp)) hm)
      (fun b hb => hp b (by simp [hb])) hr

end ClientSocket

end WarheadDiscord
