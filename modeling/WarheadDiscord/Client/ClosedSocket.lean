import WarheadDiscord.Client.Conversation

/-!
# What a closed socket still does

`ReadHandler` does not look at whether the socket is open between two frames.  So
the frames that share a read with a rejected login are dispatched behind it, and
so are the frames of a read that was outstanding when the socket was closed.

* `readInternal_onlyOpen_iff`: exactly which reads dispatch a frame on a closed socket.
* `closedSocket_quiet_iff`: a run never does exactly when all of its reads are quiet;
  then a closed session keeps its `_authed`, and what the session did depends on the
  bytes alone and not on how they were cut.
-/

namespace WarheadDiscord

open Lib

/-- No frame of the history was dispatched on a closed socket. -/
def OnlyOpen (s : ClientSession) : Prop := ∀ d ∈ s.dispatched, d.closed = false

variable {env : Env} {e : Endian} {chunk : Chunk} {c d : ClientSocket}

theorem onlyOpen_snoc {s t : ClientSession} {f : Frame} {closed : Bool} (h : OnlyOpen s)
    (ht : t.dispatched = s.dispatched ++ [⟨f, closed⟩]) : OnlyOpen t ↔ closed = false := by
  constructor
  · intro ho
    exact ho ⟨f, closed⟩ (by rw [ht]; simp)
  · intro hc d hd
    rw [ht, List.mem_append, List.mem_singleton] at hd
    rcases hd with hd | rfl
    · exact h d hd
    · exact hc

theorem readDataHandler_onlyOpen {s t : ClientSession} {f : Frame}
    {result : ReadDataHandlerResult} (hn : ¬ OnlyOpen s)
    (ht : s.readDataHandler env f.packet = .ok (t, result)) : ¬ OnlyOpen t := by
  have hpre : ∀ u : ClientSession, u.dispatched = s.dispatched ++ [⟨f, s.socket.closed⟩] →
      ¬ OnlyOpen u := fun u hu ho => hn fun d hd => ho d (by rw [hu]; simp [hd])
  rw [ClientSession.readDataHandler_eq] at ht
  split at ht
  · cases ht
  · cases ht; exact hpre _ rfl
  · cases ht; exact hpre _ rfl
  · cases ht; exact hpre _ rfl
  · cases ht
    exact hpre _ (ClientSession.authenticate_same env ((s.dispatch f).now env).2).dispatched
  · cases ht; exact hpre _ rfl

/-- **The frames of a read.**  On an open socket none of them may be behind a rejection; on
a closed one there must be none. -/
theorem handleFrames_onlyOpen_iff : ∀ (fs : List Frame) (s : ClientSession)
    (handed : List Frame) (t : ClientSession) (stop : Option ReadDataHandlerResult), s.Inv →
    OnlyOpen s → handleFrames (ClientSession.readDataHandler env) fs s = .ok (handed, t, stop) →
    (OnlyOpen t ↔ if s.socket.closed then fs = [] else settled s.authed fs = true) := by
  intro fs
  induction fs with
  | nil =>
    intro s handed t stop _ ho h
    cases h
    cases s.socket.closed with
    | true => exact ⟨fun _ => rfl, fun _ => ho⟩
    | false => exact ⟨fun _ => rfl, fun _ => ho⟩
  | cons f fs ih =>
    intro s handed t stop hi ho h
    rw [handleFrames] at h
    rw [settled]
    cases hh : f.handled s.authed with
    | false =>
      obtain ⟨u, hu, -, hd⟩ := ClientSession.readDataHandler_of_not_handled env hh
      rw [hu] at h
      cases h
      rw [onlyOpen_snoc ho hd]
      cases s.socket.closed with
      | true => simp
      | false => simp
    | true =>
      cases hw : f.wellFormed with
      | false =>
        obtain ⟨fault, hu⟩ := ClientSession.readDataHandler_of_not_wellFormed env hh hw
        rw [hu] at h
        cases h
      | true =>
        obtain ⟨u, hu, hi', ha, hd, hc⟩ := hi.readDataHandler_of_wellFormed env hh hw
        rw [hu] at h
        dsimp only at h
        rcases hr : handleFrames (ClientSession.readDataHandler env) fs u with
          fault | ⟨handed', v, stop'⟩
        · rw [hr] at h; cases h
        · rw [hr] at h
          cases h
          have hopen := onlyOpen_snoc ho hd
          cases hcl : s.socket.closed with
          | true =>
            rw [hcl] at hopen
            have hn : ¬ OnlyOpen u := fun hx => absurd (hopen.mp hx) (by decide)
            have hn' := handleFrames_invariant (I := fun s => ¬ OnlyOpen s)
              (fun f s t result h ht => readDataHandler_onlyOpen h ht) _ _ _ _ _ hn hr
            simp [hn']
          | false =>
            have hrec := ih u _ _ _ hi' (hopen.mpr hcl) hr
            rw [hrec, hc, hcl, ha]
            cases f.isRejection with
            | true => simp [List.isEmpty_iff]
            | false => simp

namespace ClientSocket

/-- The frames that the chunk completes: none of them is behind a rejection, and there are
none at all when the socket is closed. -/
def QuietRead (e : Endian) (c : ClientSocket) (chunk : Chunk) : Prop :=
  ∀ pending, c.read.Waits e pending →
    if c.session.socket.closed then (discordFormat.parse (pending ++ chunk.1)).1 = []
    else settled c.session.authed (discordFormat.parse (pending ++ chunk.1)).1 = true

/-- The reads of an action are quiet. -/
def QuietAct (e : Endian) (c : ClientSocket) : Act → Prop
  | .read chunk => c.read.readPending = true → QuietRead e c chunk
  | _ => True

/-- **A read dispatches a frame on a closed socket exactly when it is not quiet.** -/
theorem readInternal_onlyOpen_iff {pending : List UInt8} (hi : Inv e c)
    (ho : OnlyOpen c.session) (hw : c.read.Waits e pending)
    (hd : c.readInternal env e chunk = .ok d) : OnlyOpen d.session ↔
      if c.session.socket.closed then (discordFormat.parse (pending ++ chunk.1)).1 = []
      else settled c.session.authed (discordFormat.parse (pending ++ chunk.1)).1 = true := by
  obtain ⟨handed, t, stop, hf, hs⟩ := readInternal_ok hw hd
  have hiff := handleFrames_onlyOpen_iff _ _ _ _ _ hi.session ho hf
  rcases hs with hs | hs
  · rw [hs]
    exact hiff
  · rw [hs]
    exact hiff

theorem step_onlyOpen_iff {a : Act} (hi : Inv e c) (ho : OnlyOpen c.session)
    (hd : c.step env e a = .ok d) : OnlyOpen d.session ↔ QuietAct e c a := by
  cases a with
  | read chunk =>
    rw [step] at hd
    constructor
    · intro ho' _ pending hw
      exact (readInternal_onlyOpen_iff hi ho hw hd).mp ho'
    · intro hq
      cases hp : c.read.readPending with
      | true =>
        obtain ⟨pending, hw⟩ := hi.waits hp
        exact (readInternal_onlyOpen_iff hi ho hw hd).mpr (hq hp pending hw)
      | false =>
        rw [readInternal, hp] at hd
        cases hd
        exact ho
  | readError =>
    cases hd
    refine ⟨fun _ => trivial, fun _ => ?_⟩
    split
    · exact ho
    · exact ho
  | update w =>
    cases hd
    have hs := ClientSession.update_same w hi.session.closing
    refine ⟨fun _ => trivial, fun _ => ?_⟩
    rw [OnlyOpen, hs.dispatched]
    exact ho
  | _ => cases hd; exact ⟨fun _ => trivial, fun _ => ho⟩

theorem step_authed {a : Act} (hi : Inv e c) (hc : c.session.socket.closed = true)
    (hq : QuietAct e c a) (hd : c.step env e a = .ok d) :
    d.session.authed = c.session.authed ∧ d.session.socket.closed = true := by
  cases a with
  | read chunk =>
    rw [step] at hd
    cases hp : c.read.readPending with
    | true =>
      obtain ⟨pending, hw⟩ := hi.waits hp
      have hnil := hq hp pending hw
      rw [hc, if_pos rfl] at hnil
      obtain ⟨handed, t, stop, hf, hs⟩ := readInternal_ok hw hd
      rw [hnil] at hf
      cases hf
      rcases hs with hs | hs
      · rw [hs]; exact ⟨rfl, hc⟩
      · rw [hs]; exact ⟨rfl, ClientSession.closeSocket_closed _⟩
    | false =>
      rw [readInternal, hp] at hd
      cases hd
      exact ⟨rfl, hc⟩
  | readError =>
    cases hd
    split
    · exact ⟨rfl, ClientSession.closeSocket_closed _⟩
    · exact ⟨rfl, hc⟩
  | update w =>
    cases hd
    have hs := ClientSession.update_same w hi.session.closing
    exact ⟨hs.authed, hs.closed.trans hc⟩
  | addPacketToQueue p => cases hd; exact ⟨rfl, hc⟩
  | writeReady w =>
    cases hd
    have hs := Socket.handleQueue_sameEnds
      (s := { c.session.socket with isWritingAsync := false }) w hi.session.closing
    exact ⟨rfl, hs.closed.trans hc⟩
  | closeSocket => cases hd; exact ⟨rfl, ClientSession.closeSocket_closed _⟩
  | disconnect => cases hd; exact ⟨rfl, hi.session.disconnectManager_closed⟩
  | release => cases hd; exact ⟨rfl, ClientSession.closeSocket_closed _⟩

theorem run_authed : ∀ (acts : List Act) (c d : ClientSocket), Inv e c →
    c.session.socket.closed = true → Each (step env e) (QuietAct e) c acts →
    run (step env e) c acts = .ok d → d.session.authed = c.session.authed := by
  intro acts
  induction acts with
  | nil => intro c d _ _ _ hd; cases hd; rfl
  | cons a acts ih =>
    intro c d hi hc hq hd
    obtain ⟨m, hm, hr⟩ := run_cons_ok hd
    obtain ⟨hqa, hrest⟩ := hq m hm
    obtain ⟨ha, hc'⟩ := step_authed hi hc hqa hm
    exact (ih m d (step_inv hi hm) hc' hrest hr).trans ha

theorem settledAct_of_quietAct {stream : List UInt8} {a : Act} (hf : Follows e stream c)
    (hq : QuietAct e c a) : SettledAct e c a := by
  cases a with
  | read chunk =>
    intro hp pending hw
    cases hc : c.session.socket.closed with
    | true =>
      rw [(hf.ended hc).1] at hp
      cases hp
    | false =>
      have h := hq hp pending hw
      rw [hc] at h
      exact h
  | _ => trivial

/-- What a run of quiet reads leaves is a function of the bytes that it brought. -/
theorem run_quiet_dispatched {start : ClientSocket} {acts : List Act} (hs : begin env = .ok start)
    (hp : ∀ a ∈ acts, a.Peaceful) (hq : Each (step env e) (QuietAct e) start acts)
    (hd : run (step env e) start acts = .ok d) :
    if start.session.isOpen then
      d.session.dispatched =
          (follow false (discordFormat.parse (received acts)).1).1.map (⟨·, false⟩) ∧
        d.session.authed = (follow false (discordFormat.parse (received acts)).1).2.1
    else d.session.dispatched = [] ∧ d.session.authed = false := by
  cases ho : start.session.isOpen with
  | true =>
    have hf := run_follows (fun _ _ _ => settledAct_of_quietAct) acts start d [] (begin_inv hs)
      (begin_follows hs ho) hp hq hd
    rw [List.nil_append] at hf
    exact ⟨hf.dispatched, hf.authed⟩
  | false =>
    have h := run_silent acts start d (begin_inv (e := e) hs) (begin_silent hs ho) hp hd
    exact ⟨h.dispatched, h.authed⟩

/-- **When a closed socket is left alone.**  A run never dispatches a frame on a closed
socket exactly when all of its reads are quiet.  Then a closed session keeps its `_authed`;
and two runs that bring the same bytes dispatch the same frames and end with the same
`_authed`, however the bytes were cut. -/
theorem closedSocket_quiet_iff (env : Env) (e : Endian) (start : ClientSocket)
    (hs : begin env = .ok start) :
    (∀ acts, (∀ c, Visits (step env e) start acts c → ∀ d ∈ c.session.dispatched,
        d.closed = false) ↔ Each (step env e) (QuietAct e) start acts) ∧
    (∀ pre suf c d, Each (step env e) (QuietAct e) start (pre ++ suf) →
      run (step env e) start pre = .ok c → c.session.socket.closed = true →
      run (step env e) c suf = .ok d → d.session.authed = c.session.authed) ∧
    (∀ acts acts' c d, (∀ a ∈ acts, a.Peaceful) → (∀ a ∈ acts', a.Peaceful) →
      received acts = received acts' → Each (step env e) (QuietAct e) start acts →
      Each (step env e) (QuietAct e) start acts' → run (step env e) start acts = .ok c →
      run (step env e) start acts' = .ok d →
      c.session.dispatched = d.session.dispatched ∧ c.session.authed = d.session.authed) := by
  refine ⟨fun acts => ?_, fun pre suf c d hq hc hcl hd => ?_,
    fun acts acts' c d hp hp' hr hq hq' hc hd => ?_⟩
  · have ho : OnlyOpen start.session := by
      obtain ⟨-, -, -, -, -, -, hdis, -⟩ := begin_spec hs
      rw [OnlyOpen, hdis]
      exact fun _ h => absurd h List.not_mem_nil
    exact visits_iff_each (I := Inv e) (P := fun c => OnlyOpen c.session)
      (fun _ _ _ hi hd => step_inv hi hd) (fun _ _ _ hi ho hd => step_onlyOpen_iff hi ho hd)
      acts start (begin_inv hs) ho
  · exact run_authed suf c d (run_inv hs hc) hcl (each_suffix hq hc) hd
  · have h := run_quiet_dispatched hs hp hq hc
    have h' := run_quiet_dispatched hs hp' hq' hd
    rw [← hr] at h'
    cases ho : start.session.isOpen with
    | true =>
      rw [ho] at h h'
      exact ⟨h.1.trans h'.1.symm, h.2.trans h'.2.symm⟩
    | false =>
      rw [ho] at h h'
      exact ⟨h.1.trans h'.1.symm, h.2.trans h'.2.symm⟩

/-- A rejection alone in its read. -/
theorem closedSocket_quiet_rejection : ∃ start, begin .sample = .ok start ∧
    ∀ c, Visits (step .sample .little) start
      [.read ⟨[0, 0, 0, 3, 6, 0, 1], by decide⟩] c → ∀ d ∈ c.session.dispatched,
        d.closed = false := by
  obtain ⟨start, hs, ho, ha, hw⟩ := begin_sample
  have hc : start.session.socket.closed = false := by
    have := (begin_inv (e := .little) hs).session.isOpen_eq
    rw [ho] at this
    simpa using this.symm
  refine ⟨start, hs, ((closedSocket_quiet_iff .sample .little start hs).1 _).mpr ?_⟩
  refine fun t _ => ⟨fun _ pending hp => ?_, trivial⟩
  obtain rfl := (hw .little).holds.unique hp.holds
  rw [hc, ha]
  decide

/-- What a run leaves: whether the session is authenticated, whether its socket is closed,
and the frames that it dispatched. -/
def outcome (acts : List Act) : Option (Bool × Bool × List Dispatch) :=
  match begin .sample with
  | .ok start =>
    match run (step .sample .little) start acts with
    | .ok c => some (c.session.authed, c.session.socket.closed, c.session.dispatched)
    | .error _ => none
  | .error _ => none

/-- A rejected login and an accepted one behind it, in one read and in two. -/
theorem rejected_then_accepted :
    outcome [.read ⟨[0, 0, 0, 3, 6, 0, 1, 0, 0, 0, 3, 6, 0, 0], by decide⟩] =
      some (true, true, [⟨⟨6, [1]⟩, false⟩, ⟨⟨6, [0]⟩, true⟩]) ∧
    outcome [.read ⟨[0, 0, 0, 3, 6, 0, 1], by decide⟩, .read ⟨[0, 0, 0, 3, 6, 0, 0], by decide⟩] =
      some (false, true, [⟨⟨6, [1]⟩, false⟩]) := by
  constructor <;> decide +kernel

end ClientSocket

end WarheadDiscord
